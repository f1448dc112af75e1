import OsLab.Mfs.Model

/-!
# Model — files in the virtual file system server

`common_open` and `actual_lseek` of `vfs/open.c`, `actual_read_write_peek` and `read_write` of
`vfs/read.c` and `truncate_vnode` of `vfs/link.c`, over the file system server of `Mfs`.

* The descriptors of all processes are numbered together, and so are the vnodes.  Locks, reference
  counts, owners and the log lines are left out.
* A path is a number.  `names` holds the files that were found or created under the paths; symbolic
  links are not followed.
* Devices and pipes are served by code outside these files, and so are permissions, free slots and
  the creation and truncation of inodes: these are parameters.
* The failure `none` is a panic of either server, or a store outside of `i_zone`, behind which the model
  does not go on.
-/

namespace OsLab
namespace Vfs

open OsLab.Lib
open OsLab.Mfs (RwFlag Server Grant SuperBlock fsReadwrite OK EINVAL I_IMMEDIATE)

/-! ## Constants -/

def S_IFMT : Nat := 0o170000
def S_IFIFO : Nat := 0o010000
def S_IFCHR : Nat := 0o020000
def S_IFDIR : Nat := 0o040000
def S_IFBLK : Nat := 0o060000
def S_IFREG : Nat := 0o100000
def S_IFIMM : Nat := 0o110000
def ALLPERMS : Nat := 0o7777

def R_BIT : Nat := 0o4
def W_BIT : Nat := 0o2

def O_ACCMODE : Nat := 0x3
def O_APPEND : Nat := 0x8
def O_CREAT : Nat := 0x200
def O_TRUNC : Nat := 0x400
def O_EXCL : Nat := 0x800

def SSIZE_MAX : Nat := 2 ^ 31 - 1

def ENOENT : Int := -2
def EIO : Int := -5
def EBADF : Int := -9
def EEXIST : Int := -17
def EISDIR : Int := -21
def ENFILE : Int := -23
def ESPIPE : Int := -29
def EOVERFLOW : Int := -84
def SUSPEND : Int := -998

/-- `mode_map` -/
def modeMap (acc : Nat) : Nat :=
  match acc with
  | 0 => R_BIT
  | 1 => W_BIT
  | 2 => R_BIT ||| W_BIT
  | _ => 0

/-! ## State -/

structure Vnode where
  v_mode : Nat
  v_size : Int
  v_inode_nr : Nat
  deriving DecidableEq, Repr

def Vnode.type (vp : Vnode) : Nat :=
  vp.v_mode &&& S_IFMT

structure Filp where
  filp_mode : Nat
  filp_flags : Nat
  filp_pos : Int
  filp_vno : Nat
  deriving DecidableEq, Repr

/-- Open files, vnodes, names and the file system server below. -/
structure State where
  filps : Nat → Option Filp
  vnodes : Nat → Option Vnode
  names : Nat → Option Nat
  fs : Server

/-- `struct node_details` -/
structure NodeDetails where
  inode_nr : Nat
  fmode : Nat
  fsize : Int

/-- The code outside these files. -/
structure Env where
  mfs : Mfs.Env
  sb : SuperBlock
  /-- An error of the path lookup before the last component. -/
  pathError : State → Nat → Option Int
  /-- `get_fd` -/
  getFd : State → Except Int Nat
  /-- `get_free_vnode` -/
  getFreeVnode : State → Option Nat
  /-- `forbidden(fp, vp, bits)` -/
  forbidden : Vnode → Nat → Int
  /-- `req_create`, after the permission check on the directory. -/
  reqCreate : Server → Nat → Nat → Except Int (NodeDetails × Server)
  /-- `req_ftrunc` -/
  reqFtrunc : Server → Nat → Int → Int × Server
  /-- `req_inhibread` -/
  reqInhibread : Nat → Int
  /-- The grant that `req_readwrite` makes for a buffer. -/
  grant : Nat → Grant
  /-- Opening a device or a pipe. -/
  openSpecial : Vnode → Nat → Int
  /-- Input and output of devices and pipes: the result, the position and the count. -/
  specialIo : RwFlag → Vnode → Int → Nat → Int × Int × Nat

section Functions

variable (env : Env)

/-! ## Opening -/

/-- `truncate_vnode` -/
def truncateVnode (st : State) (slot : Nat) (vp : Vnode) (newsize : Int) : Int × State :=
  if vp.type ≠ S_IFIFO ∧ vp.type ≠ S_IFREG ∧ vp.type ≠ S_IFIMM then (EINVAL, st)
  else
    let (r, fs) := env.reqFtrunc st.fs vp.v_inode_nr newsize
    if r = OK then
      (r,
        { st with
          fs := fs
          vnodes := Function.update st.vnodes slot (some { vp with v_size := newsize }) })
    else (r, { st with fs := fs })

/-- `new_node`: the error code, and the vnode that was made or found. -/
def newNode (st : State) (path bits : Nat) : Int × Option Nat × State :=
  match env.pathError st path with
  | some r => (r, none, st)
  | none =>
      match st.names path with
      | some slot => (EEXIST, some slot, st)
      | none =>
          match env.getFreeVnode st with
          | none => (ENFILE, none, st)
          | some slot =>
              match env.reqCreate st.fs path bits with
              | .error r => (if r = EEXIST then EIO else r, none, st)
              | .ok (res, fs) =>
                  let vp : Vnode :=
                    { v_mode := res.fmode, v_size := res.fsize, v_inode_nr := res.inode_nr }
                  (OK, some slot,
                    { st with
                      vnodes := Function.update st.vnodes slot (some vp)
                      names := Function.update st.names path (some slot)
                      fs := fs })

/-- The normal open code, for a file that was there before. -/
def openExisting (st : State) (slot oflags bits : Nat) : Option (Int × State) :=
  (st.vnodes slot).map fun vp =>
    let r := env.forbidden vp bits
    if r ≠ OK then (r, st)
    else if vp.type = S_IFREG ∨ vp.type = S_IFIMM then
      if oflags &&& O_TRUNC ≠ 0 then
        let r := env.forbidden vp W_BIT
        if r ≠ OK then (r, st) else (OK, (truncateVnode env st slot vp 0).2)
      else (OK, st)
    else if vp.type = S_IFDIR then (if bits &&& W_BIT ≠ 0 then EISDIR else OK, st)
    else (env.openSpecial vp bits, st)

/-- The part of `common_open` behind the lookup: claim the descriptor, open, and give the
descriptor back on an error. -/
def claimFilp (st : State) (fd slot oflags bits : Nat) (exist : Bool) (r : Int) :
    Option (Int × State) :=
  let filp : Filp := { filp_mode := bits, filp_flags := oflags, filp_pos := 0, filp_vno := slot }
  let st := { st with filps := Function.update st.filps fd (some filp) }
  (if exist then openExisting env st slot oflags bits else some (r, st)).map fun (r, st) =>
    if r = OK then ((fd : Int), st)
    else if r = SUSPEND then (r, st)
    else (r, { st with filps := Function.update st.filps fd none })

/-- `common_open`; `umask` belongs to the calling process. -/
def commonOpen (st : State) (path oflags omode umask : Nat) : Option (Int × State) :=
  let bits := modeMap (oflags &&& O_ACCMODE)
  if bits = 0 then some (EINVAL, st)
  else
    match env.getFd st with
    | .error r => some (r, st)
    | .ok fd =>
        if oflags &&& O_CREAT ≠ 0 then
          match newNode env st path (I_IMMEDIATE ||| (omode &&& ALLPERMS &&& umask)) with
          | (r, some slot, st) =>
              if r = OK then claimFilp env st fd slot oflags bits false r
              else claimFilp env st fd slot oflags bits (oflags &&& O_EXCL = 0) r
          | (r, none, st) => some (r, st)
        else
          match env.pathError st path, st.names path with
          | some r, _ => some (r, st)
          | none, none => some (ENOENT, st)
          | none, some slot => claimFilp env st fd slot oflags bits true OK

/-! ## Seeking -/

inductive Whence
  | seekSet
  | seekCur
  | seekEnd
  | other
  deriving DecidableEq, Repr

/-- The value of a signed 64-bit sum. -/
def offT (x : Int) : Int :=
  (x + 2 ^ 63) % 2 ^ 64 - 2 ^ 63

/-- The start position that `whence` determines. -/
def seekBase (whence : Whence) (f : Filp) (vp : Vnode) : Option Int :=
  match whence with
  | .seekSet => some 0
  | .seekCur => some f.filp_pos
  | .seekEnd => some vp.v_size
  | .other => none

/-- `actual_lseek` -/
def actualLseek (st : State) (fd : Nat) (whence : Whence) (offset : Int) : Option (Int × State) :=
  match st.filps fd with
  | none => some (EBADF, st)
  | some f =>
      (st.vnodes f.filp_vno).map fun vp =>
        if vp.type = S_IFIFO then (ESPIPE, st)
        else
          match seekBase whence f vp with
          | none => (EINVAL, st)
          | some pos =>
              let newpos := offT (pos + offset)
              if 0 < offset ∧ newpos ≤ pos then (EOVERFLOW, st)
              else if offset < 0 ∧ pos ≤ newpos then (EOVERFLOW, st)
              else if newpos ≠ f.filp_pos then
                (env.reqInhibread vp.v_inode_nr,
                  { st with
                    filps := Function.update st.filps fd (some { f with filp_pos := newpos }) })
              else (OK, st)

/-! ## Reading and writing -/

/-- Where a request starts: a write to a file opened with `O_APPEND` at `v_size`. -/
def startPos (rwFlag : RwFlag) (f : Filp) (vp : Vnode) : Int :=
  if rwFlag = .writing ∧ f.filp_flags &&& O_APPEND ≠ 0 then vp.v_size else f.filp_pos

/-- The transfer itself: the result, the position, the count, and what becomes of the file system
server and the caller's buffer. -/
def requestIo (st : State) (rwFlag : RwFlag) (f : Filp) (vp : Vnode) (buf : Bytes) (size : Nat) :
    Option (Int × Int × Nat × Server × Bytes) :=
  if vp.type = S_IFIFO ∨ vp.type = S_IFCHR ∨ vp.type = S_IFBLK then
    let (r, position, cumIo) := env.specialIo rwFlag vp f.filp_pos size
    some (r, position, cumIo, st.fs, buf)
  else
    let position := startPos rwFlag f vp
    (fsReadwrite env.mfs env.sb (env.grant size) st.fs buf vp.v_inode_nr
      { rwFlag := rwFlag, position := position, nbytes := size }).map fun (reply, fs, buf') =>
        if rwFlag ≠ .peeking ∧ 0 ≤ reply.r then (reply.r, reply.seekPos, reply.nbytes, fs, buf')
        else (reply.r, position, 0, fs, buf')

/-- `read_write` -/
def readWrite (st : State) (rwFlag : RwFlag) (fd : Nat) (f : Filp) (vp : Vnode) (buf : Bytes)
    (size : Nat) : Option (Int × State × Bytes) :=
  if SSIZE_MAX < size then some (EINVAL, st, buf)
  else
    (requestIo env st rwFlag f vp buf size).map fun (r, position, cumIo, fs, buf') =>
      let vp' :=
        if rwFlag = .writing ∧ (vp.type = S_IFREG ∨ vp.type = S_IFDIR) ∧ vp.v_size < position then
          { vp with v_size := position }
        else vp
      (if r = OK then (cumIo : Int) else r,
        { st with
          filps := Function.update st.filps fd (some { f with filp_pos := position })
          vnodes := Function.update st.vnodes f.filp_vno (some vp')
          fs := fs },
        buf')

/-- `actual_read_write_peek` -/
def actualReadWritePeek (st : State) (rwFlag : RwFlag) (fd : Nat) (buf : Bytes) (nbytes : Nat) :
    Option (Int × State × Bytes) :=
  match st.filps fd with
  | none => some (EBADF, st, buf)
  | some f =>
      let access := if rwFlag = .writing then W_BIT else R_BIT
      if f.filp_mode &&& access = 0 then some (EBADF, st, buf)
      else if nbytes = 0 then some (0, st, buf)
      else (st.vnodes f.filp_vno).bind fun vp => readWrite env st rwFlag fd f vp buf nbytes

/-! ## Requests -/

/-- The system calls on files. -/
inductive Call
  | creat (path oflags omode umask : Nat)
  | read (fd : Nat) (buf : Bytes) (nbytes : Nat)
  | write (fd : Nat) (buf : Bytes) (nbytes : Nat)
  | lseek (fd : Nat) (whence : Whence) (offset : Int)

/-- One system call.  `do_creat` refuses a call without `O_CREAT`. -/
def call (st : State) : Call → Option (Int × State)
  | .creat path oflags omode umask =>
      if oflags &&& O_CREAT = 0 then some (EINVAL, st)
      else commonOpen env st path oflags omode umask
  | .read fd buf nbytes =>
      (actualReadWritePeek env st .reading fd buf nbytes).map fun (r, st', _) => (r, st')
  | .write fd buf nbytes =>
      (actualReadWritePeek env st .writing fd buf nbytes).map fun (r, st', _) => (r, st')
  | .lseek fd whence offset => actualLseek env st fd whence offset

/-- A sequence of system calls. -/
def calls (st : State) (cs : List Call) : Option State :=
  cs.foldlM (fun st c => (call env st c).map fun (_, st') => st') st

end Functions

/-- Nothing is open and nothing was created yet. -/
def initial (fs : Server) : State :=
  { filps := fun _ => none, vnodes := fun _ => none, names := fun _ => none, fs := fs }

end Vfs
end OsLab
