import OsLab.Lib.Bytes
import OsLab.Lib.Loop

/-!
# Model — reading and writing files in the MINIX file system server

`fs_readwrite` of `mfs/read.c` and what it calls: `removeInodeEntry`, `rw_chunk`, `read_map` and
`rd_indir`, and from `mfs/write.c` `write_map`, `new_block`, `clear_zone` and `zero_block`.

* The data area `i_zone` of an inode is its 40 bytes.  An immediate file keeps its content there; for
  all other files it is read as ten zone numbers.
* The buffer cache and the device below it are one store of blocks: a block holds what was last put
  into it.  A buffer acquired with `NO_READ` has arbitrary content (`Env.stale`).
* Reading ahead only fills the cache and is left out, and so are the time stamps and dirty marks.
  The device reports no read or write errors.
* A `panic`, a failed assertion and an access outside an array are the failure `none`.
* The zone allocator and the grant checks of the kernel are parameters.
-/

namespace OsLab
namespace Mfs

open OsLab.Lib

/-! ## Constants -/

def I_TYPE : Nat := 0o170000
def I_REGULAR : Nat := 0o100000
def I_IMMEDIATE : Nat := 0o110000
def I_BLOCK_SPECIAL : Nat := 0o060000
def I_DIRECTORY : Nat := 0o040000
def I_NAMED_PIPE : Nat := 0o010000
def ALL_MODES : Nat := 0o007777

def MAX_FILE_POS : Int := 0x7FFFFFFF

def NO_ZONE : Nat := 0
def NO_BLOCK : Nat := 0

/-- The number of zone numbers in an inode. -/
def V2_NR_TZONES : Nat := 10

/-- Bytes in the data area of an inode and in the local `buffer` of `fs_readwrite`. -/
def I_ZONE_BYTES : Nat := 40

def OK : Int := 0
def EPERM : Int := -1
def EINVAL : Int := -22
def EFBIG : Int := -27
def ENOSPC : Int := -28
def EROFS : Int := -30

/-! ## State -/

/-- The super block of the mounted file system, as `read_super` accepts it.  `ndzones` and `nindirs`
are the values that reading an inode puts into `i_ndzones` and `i_nindirs`. -/
structure SuperBlock where
  s_dev : Nat
  s_block_size : Nat
  s_log_zone_size : Nat
  s_max_size : Nat
  s_firstdatazone : Nat
  s_zones : Nat
  s_rd_only : Bool
  ndzones : Nat
  nindirs : Nat
  block_size_pos : 0 < s_block_size
  block_size_lt : s_block_size < 2 ^ 32
  max_size_lt : s_max_size < 2 ^ 31
  firstdatazone_pos : 0 < s_firstdatazone
  zones_le : s_zones ≤ 2 ^ 32
  ndzones_pos : 0 < ndzones
  ndzones_le : ndzones + 2 ≤ V2_NR_TZONES
  nindirs_pos : 0 < nindirs
  nindirs_le : 4 * nindirs ≤ s_block_size

structure Inode where
  i_mode : Nat
  i_size : Nat
  i_zone : Bytes
  i_zsearch : Nat

/-- The type bits of the mode. -/
def Inode.type (rip : Inode) : Nat :=
  rip.i_mode &&& I_TYPE

/-- The entry `i_zone[k]`. -/
def Inode.zone (rip : Inode) (k : Nat) : Nat :=
  word rip.i_zone k

def Inode.setZone (rip : Inode) (k z : Nat) : Inode :=
  { rip with i_zone := setWord rip.i_zone k z }

/-- Blocks by device and number. -/
abbrev Disk : Type :=
  Nat → Nat → Bytes

/-- What the functions of the server work on: an inode, the blocks and the zone bit map. -/
structure Core where
  rip : Inode
  disk : Disk
  used : Nat → Bool

def Core.setBlock (c : Core) (dev b : Nat) (data : Bytes) : Core :=
  { c with disk := Function.update c.disk dev (Function.update (c.disk dev) b data) }

def Core.setUsed (c : Core) (z : Nat) (v : Bool) : Core :=
  { c with used := Function.update c.used z v }

/-- The code outside these files. -/
structure Env where
  /-- `alloc_zone(dev, z)`: a zone found in the bit map from `z` on, or none. -/
  alloc : (Nat → Bool) → Nat → Option Nat
  /-- Content of a buffer acquired without reading. -/
  stale : Disk → Nat → Nat → Bytes
  /-- `get_block_size(dev)` -/
  blockSizeOf : Nat → Nat

section Functions

variable (env : Env) (sb : SuperBlock)

/-! ## Zones -/

/-- `alloc_zone` marks the zone in the bit map. -/
def allocZone (c : Core) (z : Nat) : Option (Nat × Core) :=
  (env.alloc c.used z).map fun z' => (z', c.setUsed z' true)

def freeZone (c : Core) (z : Nat) : Core :=
  c.setUsed z false

/-- One entry of an indirect block.  An index behind the block and an illegal zone number fail. -/
def rdIndir (block : Bytes) (index : Nat) : Option Nat :=
  if sb.nindirs ≤ index then none
  else
    let zone := word block index
    if zone ≠ NO_ZONE ∧ (zone < sb.s_firstdatazone ∨ sb.s_zones ≤ zone) then none else some zone

/-- The last lines of `read_map`: entry `excess` of the single indirect block in zone `z`. -/
def readSingle (c : Core) (z excess boff : Nat) : Option Nat :=
  if z = NO_ZONE then some NO_BLOCK
  else
    (rdIndir sb (c.disk sb.s_dev (z <<< sb.s_log_zone_size)) excess).map fun z' =>
      if z' = NO_ZONE then NO_BLOCK else (z' <<< sb.s_log_zone_size) + boff

/-- The block in which a position of the file is found, or `NO_BLOCK`. -/
def readMap (c : Core) (position : Nat) : Option Nat :=
  let blockPos := position / sb.s_block_size
  let zone := blockPos >>> sb.s_log_zone_size
  let boff := blockPos - (zone <<< sb.s_log_zone_size)
  if zone < sb.ndzones then
    let z := c.rip.zone zone
    some (if z = NO_ZONE then NO_BLOCK else (z <<< sb.s_log_zone_size) + boff)
  else
    let excess := zone - sb.ndzones
    if excess < sb.nindirs then readSingle sb c (c.rip.zone sb.ndzones) excess boff
    else
      let z := c.rip.zone (sb.ndzones + 1)
      if z = NO_ZONE then some NO_BLOCK
      else
        let excess := excess - sb.nindirs
        let index := excess / sb.nindirs
        -- The source tests `>` here: index `nindirs` is read behind the block.
        if sb.nindirs < index then some NO_BLOCK
        else
          (rdIndir sb (c.disk sb.s_dev (z <<< sb.s_log_zone_size)) index).bind fun z' =>
            readSingle sb c z' (excess % sb.nindirs) boff

/-- `wr_indir` -/
def wrIndir (c : Core) (b index z : Nat) : Core :=
  c.setBlock sb.s_dev b (setWord (c.disk sb.s_dev b) index z)

def emptyIndir (block : Bytes) : Bool :=
  (List.range sb.nindirs).all fun i => word block i == NO_ZONE

def zeroBlock (c : Core) (dev b : Nat) : Core :=
  c.setBlock dev b zeros

/-- `clear_zone` does nothing but assert that zones are blocks. -/
def clearZone : Option Unit :=
  if sb.s_log_zone_size = 0 then some () else none

/-! ## Mapping a zone -/

/-- Where `write_map` finds and stores the number of the single indirect zone: in the inode, or in an
entry of the double indirect block. -/
inductive Holder
  | inode
  | entry (b index : Nat)

def Holder.store (holder : Holder) (c : Core) (z : Nat) : Core :=
  match holder with
  | .inode => { c with rip := c.rip.setZone sb.ndzones z }
  | .entry b index => wrIndir sb c b index z

/-- The double indirect block for `write_map`, created when it is missing and nothing is freed.
The result is an error code or the holder and the single indirect zone `z1`. -/
def doubleIndirect (c : Core) (indEx : Nat) (free : Bool) :
    Option (Except Int (Holder × Nat) × Core) :=
  let z2 := c.rip.zone (sb.ndzones + 1)
  if z2 = NO_ZONE ∧ free = false then
    match allocZone env c (c.rip.zone 0) with
    | none => some (.error ENOSPC, c)
    | some (z, c') =>
        let c' := { c' with rip := c'.rip.setZone (sb.ndzones + 1) z }
        if sb.nindirs ≤ indEx then some (.error EFBIG, c')
        else
          let b := z <<< sb.s_log_zone_size
          let c' := zeroBlock c' sb.s_dev b
          (rdIndir sb (c'.disk sb.s_dev b) indEx).map fun z1 => (.ok (.entry b indEx, z1), c')
  else if sb.nindirs ≤ indEx then some (.error EFBIG, c)
  else if z2 = NO_ZONE then some (.ok (.entry NO_BLOCK indEx, NO_ZONE), c)
  else
    let b := z2 <<< sb.s_log_zone_size
    (rdIndir sb (c.disk sb.s_dev b) indEx).map fun z1 => (.ok (.entry b indEx, z1), c)

/-- Enter `newZone` in the single indirect block of `holder`, which is created when it is missing. -/
def mapSingle (c : Core) (holder : Holder) (z1 ex newZone : Nat) : Int × Core :=
  if z1 = NO_ZONE then
    match allocZone env c (c.rip.zone 0) with
    | none => (ENOSPC, holder.store sb c NO_ZONE)
    | some (z, c') =>
        let c' := zeroBlock (holder.store sb c' z) sb.s_dev (z <<< sb.s_log_zone_size)
        (OK, wrIndir sb c' (z <<< sb.s_log_zone_size) ex newZone)
  else (OK, wrIndir sb c (z1 <<< sb.s_log_zone_size) ex newZone)

/-- `WMAP_FREE`: free the zone of an entry, and the indirect blocks that become empty. -/
def unmapSingle (c : Core) (holder : Holder) (z1 ex : Nat) : Option (Int × Core) :=
  let b := z1 <<< sb.s_log_zone_size
  let freed : Option (Nat × Core) :=
    if z1 = NO_ZONE then some (NO_ZONE, c)
    else
      (rdIndir sb (c.disk sb.s_dev b) ex).map fun oldZone =>
        let c := if oldZone = NO_ZONE then c else wrIndir sb (freeZone c oldZone) b ex NO_ZONE
        if emptyIndir sb (c.disk sb.s_dev b) then
          (NO_ZONE, holder.store sb (freeZone c z1) NO_ZONE)
        else (z1, c)
  freed.map fun (z1', c) =>
    match holder with
    | .inode => (OK, c)
    | .entry bd _ =>
        let z2 := c.rip.zone (sb.ndzones + 1)
        if z1' = NO_ZONE ∧ z2 ≠ NO_ZONE ∧ emptyIndir sb (c.disk sb.s_dev bd) then
          (OK, { freeZone c z2 with rip := c.rip.setZone (sb.ndzones + 1) NO_ZONE })
        else (OK, c)

/-- `write_map`; `free` is the bit `WMAP_FREE` of `op`.  On an immediate file it returns `NO_BLOCK`,
which is the number `OK`, and maps nothing. -/
def writeMap (c : Core) (position newZone : Nat) (free : Bool) : Option (Int × Core) :=
  if c.rip.type = I_IMMEDIATE then some (NO_BLOCK, c)
  else
    let zone := (position / sb.s_block_size) >>> sb.s_log_zone_size
    if zone < sb.ndzones then
      let z := c.rip.zone zone
      if z ≠ NO_ZONE ∧ free = true then
        some (OK, { freeZone c z with rip := c.rip.setZone zone NO_ZONE })
      else some (OK, { c with rip := c.rip.setZone zone newZone })
    else
      let excess := zone - sb.ndzones
      if excess < sb.nindirs then
        let z1 := c.rip.zone sb.ndzones
        if free then unmapSingle sb c .inode z1 excess
        else some (mapSingle env sb c .inode z1 excess newZone)
      else
        let excess := excess - sb.nindirs
        (doubleIndirect env sb c (excess / sb.nindirs) free).bind fun
          | (.error r, c) => some (r, c)
          | (.ok (holder, z1), c) =>
              if free then unmapSingle sb c holder z1 (excess % sb.nindirs)
              else some (mapSingle env sb c holder z1 (excess % sb.nindirs) newZone)

/-- Acquire the zeroed block of a position, mapping a new zone when there is none.  The error is
`err_code`. -/
def newBlock (c : Core) (position : Nat) : Option (Except Int Nat × Core) :=
  (readMap sb c position).bind fun b =>
    if b = NO_BLOCK then
      let start :=
        if c.rip.i_zsearch = NO_ZONE then
          if c.rip.zone 0 = NO_ZONE then sb.s_firstdatazone else c.rip.zone 0
        else c.rip.i_zsearch
      match allocZone env c start with
      | none => some (.error ENOSPC, c)
      | some (z, c) =>
          (writeMap env sb { c with rip := { c.rip with i_zsearch := z } } position z false).bind
            fun (r, c) =>
              if r ≠ OK then some (.error r, freeZone c z)
              else
                (if position ≠ c.rip.i_size then clearZone sb else some ()).map fun _ =>
                  let zoneSize := sb.s_block_size <<< sb.s_log_zone_size
                  let b := (z <<< sb.s_log_zone_size) + (position % zoneSize) / sb.s_block_size
                  (.ok b, zeroBlock c sb.s_dev b)
    else some (.ok b, zeroBlock c sb.s_dev b)

/-! ## One chunk -/

inductive RwFlag
  | reading
  | writing
  | peeking
  deriving DecidableEq, Repr

/-- The kernel's answer to an access of `len` bytes at an offset of the grant. -/
abbrev Grant : Type :=
  Nat → Nat → Int

/-- The caller's memory behind the grant, together with the state of the server. -/
structure World where
  core : Core
  user : Bytes

/-- `sys_safecopyfrom` into a block. -/
def copyFrom (grant : Grant) (w : World) (bufOff dev b off chunk : Nat) : Int × World :=
  let r := grant bufOff chunk
  if r = OK then
    let data := copyBytes (w.core.disk dev b) off w.user bufOff chunk
    (r, { w with core := w.core.setBlock dev b data })
  else (r, w)

/-- `sys_safecopyto` and `sys_safememset`, from a memory area. -/
def copyTo (grant : Grant) (w : World) (bufOff : Nat) (src : Bytes) (off chunk : Nat) :
    Int × World :=
  let r := grant bufOff chunk
  if r = OK then (r, { w with user := copyBytes w.user bufOff src off chunk }) else (r, w)

/-- A buffer for an existing block that is about to be overwritten. -/
def getBlock (c : Core) (dev b : Nat) (noRead : Bool) : Core :=
  if noRead then c.setBlock dev b (env.stale c.disk dev b) else c

/-- The writing part of `rw_chunk`, once the block is known. -/
def writeChunk (grant : Grant) (w : World) (dev b position off chunk bufOff blockSize : Nat)
    (blockSpec : Bool) : Int × World :=
  let fresh := blockSpec = false ∧ off = 0 ∧ w.core.rip.i_size ≤ position
  -- A full block need not be read, and a block that starts behind the end is zeroed.
  let c := if chunk ≠ blockSize ∧ fresh then zeroBlock w.core dev b else w.core
  copyFrom grant { w with core := c } bufOff dev b off chunk

/-- `rw_chunk`: read, write or peek part of a block. -/
def rwChunk (grant : Grant) (w : World) (position off chunk : Nat) (rwFlag : RwFlag)
    (bufOff blockSize : Nat) : Option (Int × World) :=
  let rip := w.core.rip
  let blockSpec := rip.type == I_BLOCK_SPECIAL
  let dev := if blockSpec then rip.zone 0 else sb.s_dev
  (if blockSpec then some (position / blockSize) else readMap sb w.core position).bind fun b =>
    if blockSpec = false ∧ b = NO_BLOCK then
      match rwFlag with
      | .reading => some (copyTo grant w bufOff zeros 0 chunk)
      | .writing =>
          (newBlock env sb w.core position).map fun
            | (.error r, c) => (r, { w with core := c })
            | (.ok b, c) =>
                writeChunk grant { w with core := c } dev b position off chunk bufOff blockSize
                  blockSpec
      | .peeking =>
          (newBlock env sb w.core position).map fun
            | (.error r, c) => (r, { w with core := c })
            | (.ok _, c) => (OK, { w with core := c })
    else
      match rwFlag with
      | .reading => some (copyTo grant w bufOff (w.core.disk dev b) off chunk)
      | .peeking => some (OK, w)
      | .writing =>
          let fresh := blockSpec = false ∧ off = 0 ∧ rip.i_size ≤ position
          let noRead := decide (chunk = blockSize ∨ fresh)
          some (writeChunk grant { w with core := getBlock env w.core dev b noRead } dev b position
            off chunk bufOff blockSize blockSpec)

/-! ## A request -/

/-- The variables of the chunk loop of `fs_readwrite`. -/
structure LoopState where
  r : Int
  world : World
  position : Int
  nrbytes : Nat
  cumIo : Nat

/-- A machine word made of a file position. -/
def toUnsigned (position : Int) : Nat :=
  (position % 2 ^ 32).toNat

/-- One turn of the chunk loop; `fSize` is the size at the start of the request. -/
def chunkStep (grant : Grant) (rwFlag : RwFlag) (blockSize : Nat) (fSize : Int) (s : LoopState) :
    Option (LoopState ⊕ LoopState) :=
  if s.nrbytes = 0 then some (.inr s)
  else
    let off := toUnsigned s.position % blockSize
    let chunk := min s.nrbytes (blockSize - off)
    if rwFlag = .reading ∧ fSize ≤ s.position then some (.inr s)
    else
      let bytesLeft := fSize - s.position
      let chunk :=
        if rwFlag = .reading ∧ toUnsigned bytesLeft < chunk then toUnsigned bytesLeft else chunk
      (rwChunk env sb grant s.world (toUnsigned s.position) off chunk rwFlag s.cumIo
        blockSize).map fun (r, world) =>
          if r ≠ OK then .inr { s with r := r, world := world }
          else
            .inl
              { r := r
                world := world
                position := s.position + chunk
                nrbytes := s.nrbytes - chunk
                cumIo := s.cumIo + chunk }

/-- The chunk loop takes at least a byte each turn. -/
def chunkLoop (grant : Grant) (rwFlag : RwFlag) (blockSize : Nat) (fSize : Int) (s : LoopState) :
    Option LoopState :=
  loop (chunkStep env sb grant rwFlag blockSize fSize) (s.nrbytes + 1) s

/-- `removeInodeEntry` -/
def removeInodeEntry (rip : Inode) : Inode :=
  { rip with i_size := 0, i_zone := fun i => if i < 4 * V2_NR_TZONES then 0 else rip.i_zone i }

/-- The conversion of an immediate file to a regular one: the bytes go through a local buffer into
the first block.  The error is `err_code`. -/
def convert (c : Core) (fSize : Nat) : Option (Except Int Unit × Core) :=
  if I_ZONE_BYTES < fSize then none
  else
    let buffer := c.rip.i_zone
    let rip := removeInodeEntry c.rip
    let rip := { rip with i_mode := I_REGULAR ||| (rip.i_mode &&& ALL_MODES) }
    (newBlock env sb { c with rip := rip } 0).map fun
      | (.error r, c) => (.error r, c)
      | (.ok b, c) =>
          (.ok (), c.setBlock sb.s_dev b (copyBytes (c.disk sb.s_dev b) 0 buffer 0 fSize))

/-- The immediate transfer of `fs_readwrite`.  Every flag but reading takes the writing branch. -/
def immediateTransfer (grant : Grant) (rwFlag : RwFlag) (fSize : Nat) (s : LoopState) :
    Option LoopState :=
  if rwFlag = .reading then
    if I_ZONE_BYTES < fSize then none
    else
      let (r, world) := copyTo grant s.world s.cumIo s.world.core.rip.i_zone 0 fSize
      if r = OK then
        some
          { r := r
            world := world
            position := s.position + fSize
            nrbytes := 0
            cumIo := s.cumIo + fSize }
      else some { s with r := r }
  else
    let r := grant s.cumIo s.nrbytes
    if r = OK then
      if s.position < 0 ∨ I_ZONE_BYTES < s.position + s.nrbytes then none
      else
        let rip := s.world.core.rip
        let zone := copyBytes rip.i_zone s.position.toNat s.world.user s.cumIo s.nrbytes
        let core := { s.world.core with rip := { rip with i_zone := zone } }
        some
          { r := r
            world := { s.world with core := core }
            position := s.position + s.nrbytes
            nrbytes := 0
            cumIo := s.cumIo + s.nrbytes }
    else some { s with r := r }

structure Request where
  rwFlag : RwFlag
  position : Int
  nbytes : Nat

/-- The reply message: the return value, and `seek_pos` and `nbytes` where they are set. -/
structure Reply where
  r : Int
  seekPos : Int
  nbytes : Nat
  deriving DecidableEq, Repr

/-- The tests of `fs_readwrite` before anything is transferred. -/
def checkWrite (c : Core) (req : Request) (fSize : Int) (blockSpec : Bool) : Option Int :=
  if req.rwFlag = .writing ∧ blockSpec = false then
    if sb.s_rd_only then some EROFS
    -- The difference is a 32-bit unsigned number.
    else if ((sb.s_max_size : Int) - req.nbytes) % 2 ^ 32 < req.position then some EFBIG
    else if fSize < req.position then (clearZone sb).map fun _ => OK
    else some OK
  else if blockSpec = true ∧ req.rwFlag = .writing ∧ c.rip.zone 0 = sb.s_dev ∧ sb.s_rd_only = true
  then some EROFS
  else some OK

/-- The end of `fs_readwrite`: the chunk loop, the file size and the reply. -/
def transfer (grant : Grant) (rwFlag : RwFlag) (blockSize : Nat) (fSize : Int) (growing : Bool)
    (s : LoopState) : Option (Reply × World) :=
  (chunkLoop env sb grant rwFlag blockSize fSize s).map fun s =>
    let rip := s.world.core.rip
    let rip :=
      if rwFlag = .writing ∧ growing = true ∧ fSize < s.position then
        { rip with i_size := s.position.toNat }
      else rip
    ({ r := s.r, seekPos := s.position, nbytes := s.cumIo },
      { s.world with core := { s.world.core with rip := rip } })

/-- `fs_readwrite` on the inode found. -/
def readwriteInode (grant : Grant) (w : World) (req : Request) : Option (Reply × World) :=
  let rip := w.core.rip
  let modeWord := rip.type
  let blockSpec := modeWord == I_BLOCK_SPECIAL
  let regular := modeWord == I_REGULAR || modeWord == I_NAMED_PIPE || modeWord == I_IMMEDIATE
  let growing := regular || modeWord == I_DIRECTORY
  let blockSize := if blockSpec then env.blockSizeOf (rip.zone 0) else sb.s_block_size
  let fSize := if blockSpec then MAX_FILE_POS else (rip.i_size : Int)
  let start : LoopState :=
    { r := OK, world := w, position := req.position, nrbytes := req.nbytes, cumIo := 0 }
  (checkWrite sb w.core req fSize blockSpec).bind fun r =>
    if r ≠ OK then some ({ r := r, seekPos := 0, nbytes := 0 }, w)
    else if modeWord = I_IMMEDIATE then
      if req.rwFlag = .writing then
        if 32 < req.position + req.nbytes then
          (convert env sb w.core rip.i_size).bind fun
            | (.error r, c) => some ({ r := r, seekPos := 0, nbytes := 0 }, { w with core := c })
            | (.ok _, c) =>
                transfer env sb grant req.rwFlag blockSize fSize growing
                  { start with world := { w with core := c } }
        else
          (immediateTransfer grant req.rwFlag rip.i_size start).bind
            (transfer env sb grant req.rwFlag blockSize fSize growing)
      else if fSize ≤ req.position then
        transfer env sb grant req.rwFlag blockSize fSize growing start
      else
        (immediateTransfer grant req.rwFlag rip.i_size start).bind
          (transfer env sb grant req.rwFlag blockSize fSize growing)
    else transfer env sb grant req.rwFlag blockSize fSize growing start

/-- The server: its inodes by number, its blocks and its zone bit map. -/
structure Server where
  inodes : Nat → Option Inode
  disk : Disk
  used : Nat → Bool

/-- `fs_readwrite`, with the caller's memory. -/
def fsReadwrite (grant : Grant) (srv : Server) (user : Bytes) (ino : Nat) (req : Request) :
    Option (Reply × Server × Bytes) :=
  match srv.inodes ino with
  | none => some ({ r := EINVAL, seekPos := 0, nbytes := 0 }, srv, user)
  | some rip =>
      (readwriteInode env sb grant { core := ⟨rip, srv.disk, srv.used⟩, user := user } req).map
        fun (reply, w) =>
          (reply,
            { inodes := Function.update srv.inodes ino (some w.core.rip)
              disk := w.core.disk
              used := w.core.used },
            w.user)

end Functions

end Mfs
end OsLab
