import OsLab.Lib.Packing
import OsLab.Mfs.Model

/-!
# Getdents — reading a directory in pieces

`fs_getdents` of `mfs/read.c` with `get_block_map`, and `do_getdents` of `vfs/read.c` on one descriptor.
The server collects records in a buffer of its own and copies it out when it is full; the caller asks
again, from the position in the answer, until nothing comes back.

* `DirentLayout` has the numbers that the record length of `<dirent.h>` depends on.
* The bytes of a record are kept as a `Dirent`; a copy puts whole records into the caller's memory.
* `fs_mode_to_type` of `fslib.c` is a parameter: a table of types that nothing here looks into.  A mode
  that is not in it, on which it aborts, is left out.
-/

namespace OsLab
namespace Mfs

open OsLab.Lib

/-! ## Records -/

def DIR_ENTRY_SIZE : Nat := 64

/-- `sizeof(dp->mfs_d_name)`, which is also `MFS_NAME_MAX`. -/
def MFS_NAME_MAX : Nat := 60

def GETDENTS_ENTRIES : Nat := 8

def ENOENT : Int := -2

/-- The layout of `struct dirent`: where the name begins, the alignment of records, the size. -/
structure DirentLayout where
  nameOff : Nat
  align : Nat
  size : Nat
  align_pos : 0 < align
  size_ge : nameOff + align ≤ size
  short : size + MFS_NAME_MAX + 1 ≤ 2 ^ 16

structure Dirent where
  d_fileno : Nat
  d_reclen : Nat
  d_namlen : Nat
  d_type : Nat
  d_name : List UInt8
  deriving DecidableEq

/-- `_DIRENT_RECLEN`: header, name and a zero byte, rounded up to the alignment. -/
def direntReclen (l : DirentLayout) (namlen : Nat) : Nat :=
  (l.nameOff + namlen + 1 + (l.align - 1)) / l.align * l.align

def GETDENTS_BUFSIZE (l : DirentLayout) : Nat :=
  l.size + MFS_NAME_MAX + 1

/-- The length of the name of a directory entry: up to the first zero byte, if there is one. -/
def nameLen (block : Bytes) (off : Nat) : Nat :=
  ((List.range MFS_NAME_MAX).find? fun i => block (off + i) == 0).getD MFS_NAME_MAX

section Functions

variable (sb : SuperBlock) (l : DirentLayout) (modeToType : Nat → Nat)

/-- The inode number in entry `k` of a directory block. -/
def entryIno (block : Bytes) (k : Nat) : Nat :=
  word block (k * (DIR_ENTRY_SIZE / 4))

def entryLen (block : Bytes) (k : Nat) : Nat :=
  nameLen block (k * DIR_ENTRY_SIZE + 4)

/-- The record for entry `k`.  A missing inode is a panic. -/
def entryDirent (inodes : Nat → Option Inode) (block : Bytes) (k : Nat) : Option Dirent :=
  (inodes (entryIno block k)).map fun entrip =>
    let len := entryLen block k
    { d_fileno := entryIno block k
      d_reclen := direntReclen l len % 2 ^ 16
      d_namlen := len
      d_type := modeToType entrip.i_mode
      d_name := prefixBytes (fun i => block (k * DIR_ENTRY_SIZE + 4 + i)) len }

/-! ## fs_getdents -/

/-- The two buffers: the records in `getdents_buf` and the copies made so far. -/
structure Buffers where
  tmp : List Dirent
  tmpbufOff : Nat
  userbufOff : Nat
  copies : List (Nat × List Dirent)

/-- Copy `getdents_buf` to the caller. -/
def flush (grant : Grant) (g : Buffers) : Except Int Buffers :=
  let r := grant g.userbufOff g.tmpbufOff
  if r ≠ OK then .error r
  else
    .ok
      { tmp := []
        tmpbufOff := 0
        userbufOff := g.userbufOff + g.tmpbufOff
        copies := g.copies ++ [(g.userbufOff, g.tmp)] }

/-- How the scan of a block ends: a copy failed, the caller has no space for the entry at this
position, or the block is done. -/
inductive Scan
  | failed (r : Int)
  | full (g : Buffers) (entPos : Nat)
  | more (g : Buffers)

/-- The loop over the entries of a block. -/
def scanBlock (grant : Grant) (inodes : Nat → Option Inode) (size : Nat) (block : Bytes)
    (blockPos : Nat) : List Nat → Buffers → Option Scan
  | [], g => some (.more g)
  | k :: ks, g =>
    if entryIno block k = 0 then scanBlock grant inodes size block blockPos ks g
    else
      let reclen := direntReclen l (entryLen block k)
      let entPos := blockPos + k * DIR_ENTRY_SIZE
      if size ≤ g.userbufOff + g.tmpbufOff + reclen then some (.full g entPos)
      else
        match (if GETDENTS_BUFSIZE l * GETDENTS_ENTRIES ≤ g.tmpbufOff + reclen then flush grant g
          else .ok g) with
        | .error r => some (.failed r)
        | .ok g =>
          (entryDirent l modeToType inodes block k).bind fun dep =>
            scanBlock grant inodes size block blockPos ks
              { g with tmp := g.tmp ++ [dep], tmpbufOff := g.tmpbufOff + reclen }

/-- `get_block_map`, with the assertion that a directory has no holes. -/
def getBlockMap (c : Core) (position : Nat) : Option Bytes :=
  (readMap sb c position).bind fun b => if b = NO_BLOCK then none else some (c.disk sb.s_dev b)

/-- The numbers of the entries of a block that are looked at. -/
def entryNumbers (pos off blockPos : Nat) : List Nat :=
  let first := if blockPos < pos then off / DIR_ENTRY_SIZE else 0
  List.range' first (sb.s_block_size / DIR_ENTRY_SIZE - first)

/-- What the loop over the blocks does after the scan of one: go on with the next, or end with the
buffers and `new_pos`. -/
def turnOf (next : Nat) : Scan → Nat × Buffers ⊕ Except Int (Buffers × Nat × Bool)
  | .failed r => .inr (.error r)
  | .full g entPos => .inr (.ok (g, entPos, true))
  | .more g => .inl (next, g)

/-- One turn of the loop over the blocks. -/
def scanStep (grant : Grant) (inodes : Nat → Option Inode) (c : Core) (size pos : Nat) :
    Nat × Buffers → Option (Nat × Buffers ⊕ Except Int (Buffers × Nat × Bool))
  | (blockPos, g) =>
    -- `new_pos` is the end of the directory unless the caller's buffer fills up.
    if c.rip.i_size ≤ blockPos then some (.inr (.ok (g, c.rip.i_size, false)))
    else
      (getBlockMap sb c blockPos).bind fun block =>
        (scanBlock l modeToType grant inodes size block blockPos
          (entryNumbers sb pos (pos % sb.s_block_size) blockPos) g).map
          (turnOf (blockPos + sb.s_block_size))

/-- The answer to a GETDENTS request. -/
structure GetdentsReply where
  nbytes : Nat
  seekPos : Nat
  copies : List (Nat × List Dirent)

def fsGetdents (grant : Grant) (srv : Server) (ino size pos : Nat) :
    Option (Except Int GetdentsReply) :=
  if pos % DIR_ENTRY_SIZE ≠ 0 then some (.error ENOENT)
  else
    match srv.inodes ino with
    | none => some (.error EINVAL)
    | some rip =>
      let c : Core := ⟨rip, srv.disk, srv.used⟩
      let off := pos % sb.s_block_size
      (loop (scanStep sb l modeToType grant srv.inodes c size pos) (rip.i_size + 1)
        (pos - off, ⟨[], 0, 0, []⟩)).bind fun
        | .error r => some (.error r)
        | .ok (g, newPos, done) =>
          match (if g.tmpbufOff ≠ 0 then flush grant g else .ok g) with
          | .error r => some (.error r)
          | .ok g =>
            if done ∧ g.userbufOff = 0 then some (.error EINVAL)
            else some (.ok ⟨g.userbufOff, newPos, g.copies⟩)

/-- `do_getdents` on a directory that is open for reading: the return value, the new position of the
descriptor and the copies that are reported.  Error codes are negative, so an error leaves the position
alone. -/
def doGetdents (grant : Grant) (srv : Server) (ino size filpPos : Nat) :
    Option (Int × Nat × List (Nat × List Dirent)) :=
  (fsGetdents sb l modeToType grant srv ino size filpPos).map fun
    | .error r => (r, filpPos, [])
    | .ok a => (a.nbytes, if 0 < a.nbytes then a.seekPos else filpPos, a.copies)

/-! ## A reader -/

/-- A call of the reader: the size of its buffer, and what copying to it returns. -/
structure Ask where
  size : Nat
  grant : Grant

/-- The return value of a call and the copies it reports. -/
abbrev Answer : Type :=
  Int × List (Nat × List Dirent)

/-- The records of an answer. -/
def Answer.records (a : Answer) : List Dirent :=
  a.2.flatMap Prod.snd

/-- Calls on one descriptor, one after the other: the answers, and the position at the end. -/
def readDir (srv : Server) (ino : Nat) : List Ask → Nat → Option (List Answer × Nat)
  | [], pos => some ([], pos)
  | q :: qs, pos =>
    (doGetdents sb l modeToType q.grant srv ino q.size pos).bind fun (r, pos', copies) =>
      (readDir srv ino qs pos').map fun (answers, last) => ((r, copies) :: answers, last)

end Functions

end Mfs
end OsLab
