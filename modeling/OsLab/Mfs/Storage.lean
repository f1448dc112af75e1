import OsLab.Mfs.Write

/-!
# Storage — an immediate file stores what was written to it

The plain file of the abstract level is a list of bytes, and a write overwrites part of it after
filling the hole in front with zeros.  `storedContent` reads a file back from the inode and the
blocks.  Whatever writes succeed on a fresh immediate inode, the two agree.
-/

namespace OsLab
namespace Mfs

open OsLab.Lib

/-- The byte that `read_map` leads to; unmapped blocks read as zeros. -/
def blockByte (sb : SuperBlock) (c : Core) (p : Nat) : Option UInt8 :=
  (readMap sb c p).map fun b =>
    if b = NO_BLOCK then 0 else c.disk sb.s_dev b (p % sb.s_block_size)

/-- The content of a file: in the data area of an immediate inode, otherwise in the blocks. -/
def storedContent (sb : SuperBlock) (c : Core) : Option (List UInt8) :=
  if c.rip.type = I_IMMEDIATE then some (prefixBytes c.rip.i_zone c.rip.i_size)
  else (List.range c.rip.i_size).mapM (blockByte sb c)

/-- The inode stores the bytes `file`, which are zero behind the end of the file. -/
inductive Holds (sb : SuperBlock) (c : Core) (file : Bytes) : Prop
  | immediate (type : c.rip.type = I_IMMEDIATE) (size : c.rip.i_size ≤ 32)
      (bytes : ∀ p, p < I_ZONE_BYTES → c.rip.i_zone p = file p)
      (zero : ∀ p, c.rip.i_size ≤ p → file p = 0)
  | regular (type : c.rip.type = I_REGULAR) (map : MapOk sb c)
      (bytes : ∀ p, byteAt sb c p = file p)
      (zero : ∀ p, c.rip.i_size ≤ p → file p = 0)
      (valid : ∀ p, p < c.rip.i_size → (slotOf sb (p / sb.s_block_size)).Valid sb)

section Content

variable {sb : SuperBlock} {c : Core} {file : Bytes}

theorem mapM_eq_some {α β : Type} {f : α → Option β} {g : α → β} {l : List α}
    (h : ∀ x, x ∈ l → f x = some (g x)) : l.mapM f = some (l.map g) := by
  induction l with
  | nil => rfl
  | cons x l ih =>
      have hx := h x List.mem_cons_self
      have hl := ih fun y hy => h y (List.mem_cons_of_mem x hy)
      simp [List.mapM_cons, hx, hl]

/-- The blocks of a regular file hold its bytes. -/
theorem Holds.blockByte_eq (hscale : sb.s_log_zone_size = 0) (h : Holds sb c file)
    (htype : c.rip.type = I_REGULAR) {p : Nat} (hp : p < c.rip.i_size) :
    blockByte sb c p = some (file p) := by
  cases h with
  | immediate himm =>
      rw [htype] at himm
      exact absurd himm (by decide)
  | regular _ hmap hbytes _ hvalid =>
      rw [blockByte, hmap.readMap hscale (hvalid p hp), ← hbytes p]
      rfl

/-- Reading a file back gives the bytes it stores. -/
theorem Holds.storedContent_eq (hscale : sb.s_log_zone_size = 0) (h : Holds sb c file) :
    storedContent sb c = some (prefixBytes file c.rip.i_size) := by
  have hblocks := h.blockByte_eq hscale
  cases h with
  | immediate htype hsize hbytes hzero =>
      simp only [storedContent, htype, if_true]
      congr 1
      apply prefixBytes_congr
      intro p hp
      apply hbytes
      simp only [I_ZONE_BYTES]
      omega
  | regular htype hmap hbytes hzero hvalid =>
      have hreg : ¬ I_REGULAR = I_IMMEDIATE := by decide
      simp only [storedContent, htype, hreg, if_false]
      apply mapM_eq_some
      intro p hp
      exact hblocks htype (List.mem_range.1 hp)

end Content

/-! ## One request -/

section Request

variable {env : Env} {sb : SuperBlock} {grant : Grant} {w w' : World} {file : Bytes}
variable {pos n size : Nat} {reply : Reply} {s s' : LoopState} {fSize : Int}

/-- The size of an inode is not part of the map. -/
theorem slotVal_setSize (c : Core) (size : Nat) (s : Slot) :
    slotVal sb { c with rip := { c.rip with i_size := size } } s = slotVal sb c s := by
  cases s <;> rfl

theorem MapOk.setSize {c : Core} (h : MapOk sb c) (size : Nat) :
    MapOk sb { c with rip := { c.rip with i_size := size } } :=
  h.congr (fun s _ => slotVal_setSize c size s) rfl

theorem byteAt_setSize (c : Core) (size p : Nat) :
    byteAt sb { c with rip := { c.rip with i_size := size } } p = byteAt sb c p := by
  simp only [byteAt, fileZone_congr fun s _ => slotVal_setSize c size s]

theorem chunkLoop_done {rwFlag : RwFlag} {blockSize : Nat} (h : s.nrbytes = 0) :
    chunkLoop env sb grant rwFlag blockSize fSize s = some s := by
  apply loop_exit
  simp [chunkStep, h]

/-- The end of a write: the chunk loop, and the new size. -/
theorem transfer_writing {blockSize : Nat}
    (hok : transfer env sb grant .writing blockSize fSize true s = some (reply, w')) :
    ∃ s', chunkLoop env sb grant .writing blockSize fSize s = some s' ∧
      reply = { r := s'.r, seekPos := s'.position, nbytes := s'.cumIo } ∧
      w'.user = s'.world.user ∧
      w'.core = { s'.world.core with rip := { s'.world.core.rip with
        i_size :=
          if fSize < s'.position then s'.position.toNat else s'.world.core.rip.i_size } } := by
  rcases Option.map_eq_some_iff.1 hok with ⟨s', hloop, hend⟩
  simp only [Prod.mk.injEq] at hend
  rcases hend with ⟨rfl, rfl⟩
  refine ⟨s', hloop, rfl, rfl, ?_⟩
  by_cases hlt : fSize < s'.position
  · simp [hlt]
  · simp [hlt]

/-- The end of a successful write to a regular file, also right after its conversion. -/
theorem transfer_writes (hscale : sb.s_log_zone_size = 0) (ha : AllocOk env sb)
    (hblock : 32 < sb.s_block_size) (hn : 1 ≤ n) (hstart : WriteStart sb w pos n size)
    (hbytes : ∀ p, byteAt sb w.core p = file p)
    (hvalid : ∀ p, p < size → (slotOf sb (p / sb.s_block_size)).Valid sb)
    (hsize : size < pos + n ∨ w.core.rip.i_size = size)
    (hok : transfer env sb grant .writing sb.s_block_size (size : Int) true
      { r := OK, world := w, position := (pos : Int), nrbytes := n, cumIo := 0 } =
        some (reply, w'))
    (hr : reply.r = OK) :
    Holds sb w'.core (copyBytes file pos w.user 0 n) ∧ w'.core.rip.i_size = max size (pos + n) ∧
      w'.core.rip.type = I_REGULAR := by
  rcases transfer_writing hok with ⟨s, hloop, rfl, _, hcore⟩
  rcases chunkLoop_writes hscale ha hblock hstart hloop hr with ⟨h, hcum⟩
  have hposition : s.position = ((pos + n : Nat) : Int) := by rw [h.position, hcum]
  have hfile : byteAt sb w.core = file := funext hbytes
  have hsize' : (if (size : Int) < s.position then s.position.toNat else s.world.core.rip.i_size) =
      max size (pos + n) := by
    rw [hposition, h.size]
    by_cases hlt : size < pos + n
    · rw [if_pos (by omega), Int.toNat_natCast]
      omega
    · rw [if_neg (by omega)]
      omega
  rw [hsize'] at hcore
  rw [hcore]
  have htype : s.world.core.rip.type = I_REGULAR := by
    rw [← hstart.type]
    exact congrArg (fun m => m &&& I_TYPE) h.mode
  refine ⟨.regular htype (h.map.setSize _) ?_ ?_ ?_, rfl, htype⟩
  · intro p
    rw [byteAt_setSize, h.bytes p, hfile, hcum]
  · intro p hp
    have hp' : max size (pos + n) ≤ p := hp
    have hout : ¬ (pos ≤ p ∧ p < pos + n) := by omega
    rw [copyBytes, if_neg hout, ← hbytes p]
    exact hstart.zero p (by omega)
  · intro p hp
    have hp' : p < max size (pos + n) := hp
    by_cases hold : p < size
    · exact hvalid p hold
    · -- The last byte written has a slot, so all blocks in front of it have one.
      have hlast := h.valid (pos + n - 1) (by omega) (by omega)
      rw [valid_slotOf_iff] at hlast ⊢
      have hle : p / sb.s_block_size ≤ (pos + n - 1) / sb.s_block_size :=
        Nat.div_le_div_right (by omega)
      omega

/-- A chunk is only written when the kernel grants the copy. -/
theorem rwChunk_granted {position off chunk bufOff blockSize : Nat}
    (hok : rwChunk env sb grant w position off chunk .writing bufOff blockSize = some (OK, w')) :
    grant bufOff chunk = OK := by
  cases rwChunk_done hok with
  | failed _ hnew => exact absurd (newBlock_error hnew) (by decide)
  | written _ hchunk => exact (writeChunk_answer hchunk).symm

/-- When the copy into the inode is refused, the chunk loop tries the same copy again and fails. -/
theorem chunkLoop_refused (hblock : 32 < sb.s_block_size) (hn : 1 ≤ n) (hend : pos + n ≤ 32)
    (hgrant : grant 0 n ≠ OK) {r : Int}
    (hloop : chunkLoop env sb grant .writing sb.s_block_size fSize
      { r := r, world := w, position := (pos : Int), nrbytes := n, cumIo := 0 } = some s') :
    s'.r ≠ OK := by
  have hposition : toUnsigned (pos : Int) = pos := toUnsigned_natCast (by omega)
  have hmod : pos % sb.s_block_size = pos := Nat.mod_eq_of_lt (by omega)
  have hchunk : min n (sb.s_block_size - pos) = n := by omega
  cases hstep : chunkStep env sb grant .writing sb.s_block_size fSize
      { r := r, world := w, position := (pos : Int), nrbytes := n, cumIo := 0 } with
  | none => simp [chunkLoop, loop, hstep] at hloop
  | some out =>
      cases out with
      | inl s₁ =>
          simp only [chunkStep, Nat.ne_of_gt hn, if_false, reduceCtorEq, false_and, hposition, hmod,
            hchunk] at hstep
          rcases Option.map_eq_some_iff.1 hstep with ⟨⟨r', world⟩, hrw, hnext⟩
          by_cases hr : r' = OK
          · subst hr
            exact absurd (rwChunk_granted hrw) hgrant
          · simp [hr] at hnext
      | inr s₁ =>
          rw [chunkLoop, loop_exit _ hstep] at hloop
          cases hloop
          rcases chunkStep_exit hstep with hbad | ⟨_, hdone⟩
          · exact hbad
          · exact absurd hdone (Nat.ne_of_gt hn)

/-- A successful write into the data area of the inode. -/
theorem immediate_writes (hblock : 32 < sb.s_block_size) (hn : 1 ≤ n) (hend : pos + n ≤ 32)
    (hok : (immediateTransfer grant .writing w.core.rip.i_size
      { r := OK, world := w, position := (pos : Int), nrbytes := n, cumIo := 0 }).bind
        (transfer env sb grant .writing sb.s_block_size (w.core.rip.i_size : Int) true) =
          some (reply, w'))
    (hr : reply.r = OK) :
    w'.core.rip.i_mode = w.core.rip.i_mode ∧
      w'.core.rip.i_zone = copyBytes w.core.rip.i_zone pos w.user 0 n ∧
      w'.core.rip.i_size = max w.core.rip.i_size (pos + n) := by
  rcases Option.bind_eq_some_iff.1 hok with ⟨s₁, himm, htransfer⟩
  rcases transfer_writing htransfer with ⟨s₂, hloop, rfl, _, hcore⟩
  simp only [immediateTransfer, reduceCtorEq, if_false] at himm
  by_cases hgrant : grant 0 n = OK
  · have hinside : ¬ ((pos : Int) < 0 ∨ (I_ZONE_BYTES : Int) < (pos : Int) + n) := by
      simp only [I_ZONE_BYTES]
      omega
    simp only [hgrant, if_true, hinside, if_false, Option.some.injEq] at himm
    subst himm
    rw [chunkLoop_done rfl] at hloop
    cases hloop
    rw [hcore]
    refine ⟨rfl, rfl, ?_⟩
    show (if (w.core.rip.i_size : Int) < (pos : Int) + n then ((pos : Int) + n).toNat
      else w.core.rip.i_size) = max w.core.rip.i_size (pos + n)
    by_cases hlt : w.core.rip.i_size < pos + n
    · rw [if_pos (by omega)]
      omega
    · rw [if_neg (by omega)]
      omega
  · simp only [hgrant, if_false, Option.some.injEq] at himm
    subst himm
    exact absurd hr (chunkLoop_refused hblock hn hend hgrant hloop)

/-- A successful write to an immediate file that stays immediate. -/
theorem holds_immediate_write (hblock : 32 < sb.s_block_size) (hn : 1 ≤ n) (hend : pos + n ≤ 32)
    (htype : w.core.rip.type = I_IMMEDIATE) (hsize : w.core.rip.i_size ≤ 32)
    (hbytes : ∀ p, p < I_ZONE_BYTES → w.core.rip.i_zone p = file p)
    (hzero : ∀ p, w.core.rip.i_size ≤ p → file p = 0)
    (hok : (immediateTransfer grant .writing w.core.rip.i_size
      { r := OK, world := w, position := (pos : Int), nrbytes := n, cumIo := 0 }).bind
        (transfer env sb grant .writing sb.s_block_size (w.core.rip.i_size : Int) true) =
          some (reply, w'))
    (hr : reply.r = OK) :
    Holds sb w'.core (copyBytes file pos w.user 0 n) ∧
      w'.core.rip.i_size = max w.core.rip.i_size (pos + n) ∧ w'.core.rip.type = I_IMMEDIATE := by
  rcases immediate_writes hblock hn hend hok hr with ⟨hmode, hzone, hsize'⟩
  have htype' : w'.core.rip.type = I_IMMEDIATE := by
    rw [← htype]
    exact congrArg (fun m => m &&& I_TYPE) hmode
  refine ⟨.immediate htype' ?_ ?_ ?_, hsize', htype'⟩
  · rw [hsize']
    exact Nat.max_le.2 ⟨hsize, hend⟩
  · intro p hp
    rw [hzone]
    simp only [copyBytes]
    by_cases hin : pos ≤ p ∧ p < pos + n
    · rw [if_pos hin, if_pos hin]
    · rw [if_neg hin, if_neg hin]
      exact hbytes p hp
  · intro p hp
    rw [hsize'] at hp
    have hout : ¬ (pos ≤ p ∧ p < pos + n) := by omega
    rw [copyBytes, if_neg hout]
    exact hzero p (by omega)

/-- A successful write that ends beyond byte 32 of an immediate file. -/
theorem holds_convert_write (hscale : sb.s_log_zone_size = 0) (ha : AllocOk env sb)
    (hblock : 32 < sb.s_block_size) (hn : 1 ≤ n) (hend : 32 < pos + n) (hbound : pos + n < 2 ^ 31)
    (hsize : w.core.rip.i_size ≤ 32)
    (hbytes : ∀ p, p < I_ZONE_BYTES → w.core.rip.i_zone p = file p)
    (hzero : ∀ p, w.core.rip.i_size ≤ p → file p = 0) {c : Core}
    (hconvert : convert env sb w.core w.core.rip.i_size = some (.ok (), c))
    (hok : transfer env sb grant .writing sb.s_block_size (w.core.rip.i_size : Int) true
      { r := OK, world := { w with core := c }, position := (pos : Int), nrbytes := n, cumIo := 0 } =
        some (reply, w'))
    (hr : reply.r = OK) :
    Holds sb w'.core (copyBytes file pos w.user 0 n) ∧
      w'.core.rip.i_size = max w.core.rip.i_size (pos + n) ∧ w'.core.rip.type = I_REGULAR := by
  rcases convert_ok hscale ha hblock hsize hconvert with ⟨hmap, htype, hcontent⟩
  have hfile : ∀ p, byteAt sb c p = file p := by
    intro p
    rw [hcontent p]
    by_cases hp : p < w.core.rip.i_size
    · rw [if_pos hp]
      apply hbytes
      simp only [I_ZONE_BYTES]
      omega
    · rw [if_neg hp]
      exact (hzero p (Nat.le_of_not_lt hp)).symm
  have hstart : WriteStart sb { w with core := c } pos n w.core.rip.i_size :=
    { map := hmap
      type := htype
      zero := fun p hp => (hfile p).trans (hzero p hp)
      safe := .inr ⟨hsize, hend⟩
      bound := hbound }
  refine transfer_writes (w := { w with core := c }) hscale ha hblock hn hstart hfile ?_ (.inl ?_)
    hok hr
  · -- The immediate content is within the first block.
    intro p hp
    rw [Nat.div_eq_of_lt (by omega)]
    exact valid_first sb
  · omega

/-- A successful write to a regular file. -/
theorem holds_regular_write (hscale : sb.s_log_zone_size = 0) (ha : AllocOk env sb)
    (hblock : 32 < sb.s_block_size) (hn : 1 ≤ n) (hbound : pos + n < 2 ^ 31)
    (htype : w.core.rip.type = I_REGULAR) (hmap : MapOk sb w.core)
    (hbytes : ∀ p, byteAt sb w.core p = file p)
    (hzero : ∀ p, w.core.rip.i_size ≤ p → file p = 0)
    (hvalid : ∀ p, p < w.core.rip.i_size → (slotOf sb (p / sb.s_block_size)).Valid sb)
    (hok : transfer env sb grant .writing sb.s_block_size (w.core.rip.i_size : Int) true
      { r := OK, world := w, position := (pos : Int), nrbytes := n, cumIo := 0 } = some (reply, w'))
    (hr : reply.r = OK) :
    Holds sb w'.core (copyBytes file pos w.user 0 n) ∧
      w'.core.rip.i_size = max w.core.rip.i_size (pos + n) ∧ w'.core.rip.type = I_REGULAR := by
  have hstart : WriteStart sb w pos n w.core.rip.i_size :=
    { map := hmap
      type := htype
      zero := fun p hp => (hbytes p).trans (hzero p hp)
      safe := .inl (Nat.le_refl _)
      bound := hbound }
  exact transfer_writes hscale ha hblock hn hstart hbytes hvalid (.inr rfl) hok hr

theorem growing_regular : (I_REGULAR == I_REGULAR || I_REGULAR == I_NAMED_PIPE ||
    I_REGULAR == I_IMMEDIATE || I_REGULAR == I_DIRECTORY) = true := by
  decide

theorem growing_immediate : (I_IMMEDIATE == I_REGULAR || I_IMMEDIATE == I_NAMED_PIPE ||
    I_IMMEDIATE == I_IMMEDIATE || I_IMMEDIATE == I_DIRECTORY) = true := by
  decide

/-- The variables of `fs_readwrite` before anything is transferred. -/
def loopStart (w : World) (req : Request) : LoopState :=
  { r := OK, world := w, position := req.position, nrbytes := req.nbytes, cumIo := 0 }

/-- Every way through `fs_readwrite` for a write to an immediate or a regular file. -/
inductive WriteDone (env : Env) (sb : SuperBlock) (grant : Grant) (w : World) (req : Request) :
    Reply → World → Prop
  | refused {r : Int} (hr : r ≠ OK) :
      WriteDone env sb grant w req { r := r, seekPos := 0, nbytes := 0 } w
  | unconverted {r : Int} {c : Core} (htype : w.core.rip.type = I_IMMEDIATE)
      (hend : 32 < req.position + req.nbytes)
      (h : convert env sb w.core w.core.rip.i_size = some (.error r, c)) :
      WriteDone env sb grant w req { r := r, seekPos := 0, nbytes := 0 } { w with core := c }
  | converted {c : Core} {reply : Reply} {w' : World} (htype : w.core.rip.type = I_IMMEDIATE)
      (hend : 32 < req.position + req.nbytes)
      (hconvert : convert env sb w.core w.core.rip.i_size = some (.ok (), c))
      (h : transfer env sb grant .writing sb.s_block_size (w.core.rip.i_size : Int) true
        { loopStart w req with world := { w with core := c } } = some (reply, w')) :
      WriteDone env sb grant w req reply w'
  | immediate {reply : Reply} {w' : World} (htype : w.core.rip.type = I_IMMEDIATE)
      (hend : req.position + req.nbytes ≤ 32)
      (h : (immediateTransfer grant .writing w.core.rip.i_size (loopStart w req)).bind
        (transfer env sb grant .writing sb.s_block_size (w.core.rip.i_size : Int) true) =
          some (reply, w')) :
      WriteDone env sb grant w req reply w'
  | regular {reply : Reply} {w' : World} (htype : w.core.rip.type = I_REGULAR)
      (h : transfer env sb grant .writing sb.s_block_size (w.core.rip.i_size : Int) true
        (loopStart w req) = some (reply, w')) :
      WriteDone env sb grant w req reply w'

theorem readwriteInode_done {req : Request} (hreq : req.rwFlag = .writing)
    (htype : w.core.rip.type = I_IMMEDIATE ∨ w.core.rip.type = I_REGULAR)
    (h : readwriteInode env sb grant w req = some (reply, w')) :
    WriteDone env sb grant w req reply w' := by
  simp only [readwriteInode] at h
  rcases Option.bind_eq_some_iff.1 h with ⟨r, _, hrest⟩
  by_cases hcheck : r = OK
  · simp only [hcheck, ne_eq, not_true, if_false, hreq, if_true] at hrest
    rcases htype with htype | htype
    · have hspec : (I_IMMEDIATE == I_BLOCK_SPECIAL) = false := by decide
      simp only [htype, hspec, Bool.false_eq_true, if_false, if_true, growing_immediate] at hrest
      by_cases hend : 32 < req.position + req.nbytes
      · simp only [hend, if_true] at hrest
        rcases Option.bind_eq_some_iff.1 hrest with ⟨⟨res, c⟩, hconvert, htransfer⟩
        cases res with
        | error r' =>
            cases htransfer
            exact .unconverted htype hend hconvert
        | ok u => exact .converted htype hend hconvert htransfer
      · simp only [hend, if_false] at hrest
        exact .immediate htype (Int.not_lt.1 hend) hrest
    · have hspec : (I_REGULAR == I_BLOCK_SPECIAL) = false := by decide
      have himm : ¬ I_REGULAR = I_IMMEDIATE := by decide
      simp only [htype, hspec, Bool.false_eq_true, if_false, himm, growing_regular] at hrest
      exact .regular htype hrest
  · simp only [ne_eq, hcheck, not_false_iff, if_true] at hrest
    cases hrest
    exact .refused hcheck

/-- Every successful write request stores its bytes. -/
theorem Holds.write (hscale : sb.s_log_zone_size = 0) (ha : AllocOk env sb)
    (hblock : 32 < sb.s_block_size) (h : Holds sb w.core file) (hn : 1 ≤ n)
    (hmax : pos + n ≤ sb.s_max_size)
    (hok : readwriteInode env sb grant w
      { rwFlag := .writing, position := (pos : Int), nbytes := n } = some (reply, w'))
    (hr : reply.r = OK) :
    Holds sb w'.core (copyBytes file pos w.user 0 n) ∧
      w'.core.rip.i_size = max w.core.rip.i_size (pos + n) ∧
      w'.core.rip.type =
        if w.core.rip.type = I_IMMEDIATE ∧ pos + n ≤ 32 then I_IMMEDIATE else I_REGULAR := by
  have hbound : pos + n < 2 ^ 31 := Nat.lt_of_le_of_lt hmax sb.max_size_lt
  have himm : ¬ I_REGULAR = I_IMMEDIATE := by decide
  cases h with
  | immediate htype hsize hbytes hzero =>
      cases readwriteInode_done rfl (.inl htype) hok with
      | refused hbad => exact absurd hr hbad
      | unconverted _ _ hconvert => exact absurd hr (Int.ne_of_lt (convert_error hconvert))
      | converted _ hend hconvert htransfer =>
          have hlast : 32 < pos + n := Int.ofNat_lt.1 hend
          simp only [htype, Nat.not_le.2 hlast, and_false, if_false]
          exact holds_convert_write hscale ha hblock hn hlast hbound hsize hbytes hzero hconvert
            htransfer hr
      | immediate _ hend htransfer =>
          have hlast : pos + n ≤ 32 := Int.ofNat_le.1 hend
          simp only [htype, hlast, and_self, if_true]
          exact holds_immediate_write hblock hn hlast htype hsize hbytes hzero htransfer hr
      | regular hregular _ => exact absurd (hregular.symm.trans htype) himm
  | regular htype hmap hbytes hzero hvalid =>
      cases readwriteInode_done rfl (.inr htype) hok with
      | refused hbad => exact absurd hr hbad
      | unconverted himm' _ _ => exact absurd (htype.symm.trans himm') himm
      | converted himm' _ _ _ => exact absurd (htype.symm.trans himm') himm
      | immediate himm' _ _ => exact absurd (htype.symm.trans himm') himm
      | regular _ htransfer =>
          simp only [htype, himm, false_and, if_false]
          exact holds_regular_write hscale ha hblock hn hbound htype hmap hbytes hzero hvalid
            htransfer hr

end Request

/-! ## Runs of writes -/

/-- A write request, with the caller's bytes and the kernel's answers for its grant. -/
structure WriteOp where
  position : Nat
  nbytes : Nat
  user : Bytes
  grant : Grant

def WriteOp.request (op : WriteOp) : Request :=
  { rwFlag := .writing, position := op.position, nbytes := op.nbytes }

/-- Where the write ends. -/
def WriteOp.last (op : WriteOp) : Nat :=
  op.position + op.nbytes

/-- The plain file after a sequence of writes. -/
def plainFile (ops : List WriteOp) : List UInt8 :=
  ops.foldl (fun file op => writeFile file op.position (prefixBytes op.user op.nbytes)) []

/-- The largest end of the writes. -/
def largestEnd (ops : List WriteOp) : Nat :=
  ops.foldl (fun size op => max size op.last) 0

/-- The server after writes to one inode, provided that all of them succeed. -/
def runWrites (env : Env) (sb : SuperBlock) (ino : Nat) (srv : Server) (ops : List WriteOp) :
    Option Server :=
  ops.foldlM
    (fun srv op =>
      match fsReadwrite env sb op.grant srv op.user ino op.request with
      | none => none
      | some (reply, srv', _) => if reply.r = OK then some srv' else none) srv

/-- The state of the server as the functions on an inode see it. -/
def Server.core (srv : Server) (rip : Inode) : Core :=
  { rip := rip, disk := srv.disk, used := srv.used }

/-- A freshly created immediate file. -/
structure FreshImmediate (rip : Inode) : Prop where
  type : rip.type = I_IMMEDIATE
  size : rip.i_size = 0
  zero : ∀ i, i < I_ZONE_BYTES → rip.i_zone i = 0

/-- The inode stores the list `content`. -/
def Stores (sb : SuperBlock) (c : Core) (content : List UInt8) : Prop :=
  ∃ file, Holds sb c file ∧ prefixBytes file c.rip.i_size = content

section Runs

variable {env : Env} {sb : SuperBlock} {ino : Nat} {srv srv' : Server} {rip : Inode}
variable {content : List UInt8} {ops : List WriteOp} {op : WriteOp}

theorem FreshImmediate.stores (h : FreshImmediate rip) (srv : Server) :
    Stores sb (srv.core rip) [] := by
  refine ⟨zeros, .immediate h.type ?_ h.zero fun _ _ => rfl, ?_⟩
  · rw [Server.core, h.size]
    exact Nat.zero_le 32
  · rw [Server.core, h.size]
    rfl

/-- One write request to the server. -/
theorem Stores.write (hscale : sb.s_log_zone_size = 0) (ha : AllocOk env sb)
    (hblock : 32 < sb.s_block_size) (hrip : srv.inodes ino = some rip)
    (h : Stores sb (srv.core rip) content) (hn : 1 ≤ op.nbytes) (hmax : op.last ≤ sb.s_max_size)
    {reply : Reply} {user : Bytes}
    (hok : fsReadwrite env sb op.grant srv op.user ino op.request = some (reply, srv', user))
    (hr : reply.r = OK) :
    ∃ rip', srv'.inodes ino = some rip' ∧
      Stores sb (srv'.core rip')
        (writeFile content op.position (prefixBytes op.user op.nbytes)) ∧
      rip'.i_size = max rip.i_size op.last ∧
      (rip'.type = I_IMMEDIATE ↔ rip.type = I_IMMEDIATE ∧ op.last ≤ 32) := by
  rcases h with ⟨file, hfile, rfl⟩
  simp only [fsReadwrite, hrip] at hok
  rcases Option.map_eq_some_iff.1 hok with ⟨⟨reply', w'⟩, hrw, hend⟩
  simp only [Prod.mk.injEq] at hend
  rcases hend with ⟨rfl, rfl, -⟩
  rcases Holds.write (w := ⟨srv.core rip, op.user⟩) hscale ha hblock hfile hn hmax hrw hr with
    ⟨hholds, hsize, htype⟩
  have hiff : w'.core.rip.type = I_IMMEDIATE ↔ rip.type = I_IMMEDIATE ∧ op.last ≤ 32 := by
    rw [htype]
    by_cases himm : rip.type = I_IMMEDIATE ∧ op.last ≤ 32
    · exact iff_of_true (if_pos himm) himm
    · refine iff_of_false ?_ himm
      have hreg : (if rip.type = I_IMMEDIATE ∧ op.last ≤ 32 then I_IMMEDIATE else I_REGULAR) =
          I_REGULAR := if_neg himm
      exact fun heq => absurd (hreg.symm.trans heq) (by decide)
  refine ⟨w'.core.rip, by simp, ⟨_, hholds, ?_⟩, hsize, hiff⟩
  have hzero : ∀ p, rip.i_size ≤ p → file p = 0 := by
    cases hfile with
    | immediate _ _ _ hzero => exact hzero
    | regular _ _ _ hzero _ => exact hzero
  have hwrite : writeFile (prefixBytes file rip.i_size) op.position
      (prefixBytes op.user op.nbytes) =
        prefixBytes (copyBytes file op.position op.user 0 op.nbytes)
          (max rip.i_size (op.position + op.nbytes)) := writeFile_prefixBytes file op.user hzero
  show prefixBytes (copyBytes file op.position op.user 0 op.nbytes) w'.core.rip.i_size =
    writeFile (prefixBytes file rip.i_size) op.position (prefixBytes op.user op.nbytes)
  rw [hwrite, hsize]
  rfl

/-- A run of successful writes. -/
theorem Stores.run (hscale : sb.s_log_zone_size = 0) (ha : AllocOk env sb)
    (hblock : 32 < sb.s_block_size)
    (hops : ∀ op, op ∈ ops → 1 ≤ op.nbytes ∧ op.last ≤ sb.s_max_size)
    (hrip : srv.inodes ino = some rip) (h : Stores sb (srv.core rip) content)
    (hrun : runWrites env sb ino srv ops = some srv') :
    ∃ rip', srv'.inodes ino = some rip' ∧
      Stores sb (srv'.core rip')
        (ops.foldl (fun file op => writeFile file op.position (prefixBytes op.user op.nbytes))
          content) ∧
      rip'.i_size = ops.foldl (fun size op => max size op.last) rip.i_size ∧
      (rip'.type = I_IMMEDIATE ↔
        rip.type = I_IMMEDIATE ∧ ∀ op, op ∈ ops → op.last ≤ 32) := by
  -- By induction on the writes, for every state of the server the run starts in.
  induction ops generalizing srv rip content with
  | nil =>
      cases hrun
      exact ⟨rip, hrip, h, rfl, by simp⟩
  | cons op ops ih =>
      have hop := hops op List.mem_cons_self
      simp only [runWrites, List.foldlM_cons] at hrun
      rcases Option.bind_eq_some_iff.1 hrun with ⟨srv₁, hstep, hrest⟩
      cases hfs : fsReadwrite env sb op.grant srv op.user ino op.request with
      | none => simp [hfs] at hstep
      | some x =>
          rcases x with ⟨reply, srv₂, user⟩
          by_cases hr : reply.r = OK
          · simp only [hfs, hr, if_true, Option.some.injEq] at hstep
            subst hstep
            rcases h.write hscale ha hblock hrip hop.1 hop.2 hfs hr with
              ⟨rip₁, hrip₁, h₁, hsize₁, htype₁⟩
            rcases ih (fun op' hop' => hops op' (List.mem_cons_of_mem op hop')) hrip₁ h₁ hrest with
              ⟨rip', hrip', h', hsize', htype'⟩
            refine ⟨rip', hrip', h', ?_, ?_⟩
            · rw [hsize', hsize₁]
              rfl
            · rw [htype', htype₁]
              simp only [List.forall_mem_cons, and_assoc]
          · simp [hfs, hr] at hstep

theorem Stores.type_cases {c : Core} (h : Stores sb c content) :
    c.rip.type = I_IMMEDIATE ∨ c.rip.type = I_REGULAR := by
  rcases h with ⟨file, hfile, -⟩
  cases hfile with
  | immediate htype => exact .inl htype
  | regular htype => exact .inr htype

end Runs

/-- After any sequence of successful writes, the content read back is the plain file, `i_size` is the
largest end of a write, and the file is immediate as long as no write has ended beyond byte 32. -/
theorem immediate_storage {env : Env} {sb : SuperBlock} {ino : Nat} {srv srv' : Server}
    {rip : Inode} {ops : List WriteOp} (hscale : sb.s_log_zone_size = 0)
    (hblock : 32 < sb.s_block_size) (ha : AllocOk env sb) (hrip : srv.inodes ino = some rip)
    (hfresh : FreshImmediate rip)
    (hops : ∀ op, op ∈ ops → 1 ≤ op.nbytes ∧ op.position + op.nbytes ≤ sb.s_max_size)
    (hrun : runWrites env sb ino srv ops = some srv') :
    ∃ rip', srv'.inodes ino = some rip' ∧
      storedContent sb (srv'.core rip') = some (plainFile ops) ∧
      rip'.i_size = largestEnd ops ∧
      (rip'.type = I_IMMEDIATE ∨ rip'.type = I_REGULAR) ∧
      (rip'.type = I_IMMEDIATE ↔ ∀ op, op ∈ ops → op.position + op.nbytes ≤ 32) := by
  rcases (hfresh.stores srv).run hscale ha hblock hops hrip hrun with
    ⟨rip', hrip', hstores, hsize, htype⟩
  refine ⟨rip', hrip', ?_, ?_, hstores.type_cases, ?_⟩
  · rcases hstores with ⟨file, hfile, hcontent⟩
    rw [hfile.storedContent_eq hscale, hcontent]
    rfl
  · rw [hsize, hfresh.size]
    rfl
  · rw [htype, and_iff_right hfresh.type]
    rfl

/-- A small file system with blocks of 64 bytes. -/
def smallFs : SuperBlock where
  s_dev := 1
  s_block_size := 64
  s_log_zone_size := 0
  s_max_size := 4096
  s_firstdatazone := 5
  s_zones := 40
  s_rd_only := false
  ndzones := 7
  nindirs := 16
  block_size_pos := by decide
  block_size_lt := by decide
  max_size_lt := by decide
  firstdatazone_pos := by decide
  zones_le := by decide
  ndzones_pos := by decide
  ndzones_le := by decide
  nindirs_pos := by decide
  nindirs_le := by decide

/-- An allocator that takes the first free zone. -/
def firstFit : Env where
  alloc := fun used _ => (List.range 40).find? fun z => decide (5 ≤ z) && !used z
  stale := fun _ _ _ => fun _ => 0xAA
  blockSizeOf := fun _ => 64

theorem firstFit_ok : AllocOk firstFit smallFs := by
  have hfind : ∀ used z z', firstFit.alloc used z = some z' → 5 ≤ z' ∧ used z' = false ∧ z' < 40 := by
    intro used z z' h
    have hprop := List.find?_some h
    have hmem := List.mem_of_find?_eq_some h
    simp only [Bool.and_eq_true, decide_eq_true_eq, Bool.not_eq_true'] at hprop
    exact ⟨hprop.1, hprop.2, List.mem_range.1 hmem⟩
  exact ⟨fun u z z' h => (hfind u z z' h).2.1, fun u z z' h => (hfind u z z' h).1,
    fun u z z' h => (hfind u z z' h).2.2⟩

def freshInode : Inode :=
  { i_mode := 0o110644, i_size := 0, i_zone := zeros, i_zsearch := 0 }

def freshServer : Server :=
  { inodes := fun ino => if ino = 2 then some freshInode else none
    disk := fun _ _ => fun _ => 0x55
    used := fun _ => false }

/-- Two bytes, then a write over the end of the data area, then one over the end of a block. -/
def threeWrites : List WriteOp :=
  [{ position := 1, nbytes := 2, user := fun i => UInt8.ofNat (65 + i), grant := fun _ _ => OK },
    { position := 30, nbytes := 3, user := fun i => UInt8.ofNat (97 + i), grant := fun _ _ => OK },
    { position := 63, nbytes := 2, user := fun i => UInt8.ofNat (48 + i), grant := fun _ _ => OK }]

/-- The second write converts the file, and the third one needs a second block. -/
theorem immediate_storage_threeWrites :
    ∃ srv', runWrites firstFit smallFs 2 freshServer threeWrites = some srv' ∧
      ∃ rip', srv'.inodes 2 = some rip' ∧
        storedContent smallFs (srv'.core rip') = some (plainFile threeWrites) ∧
        rip'.i_size = 65 ∧ rip'.type = I_REGULAR := by
  have hsome : (runWrites firstFit smallFs 2 freshServer threeWrites).isSome = true := by
    decide +kernel
  rcases Option.isSome_iff_exists.1 hsome with ⟨srv', hrun⟩
  have hfresh : FreshImmediate freshInode := ⟨by decide, rfl, fun _ _ => rfl⟩
  rcases immediate_storage rfl (by decide) firstFit_ok rfl hfresh (by decide) hrun with
    ⟨rip', hrip', hcontent, hsize, htypes, htype⟩
  have hlong : ¬ ∀ op, op ∈ threeWrites → op.position + op.nbytes ≤ 32 := by decide
  refine ⟨srv', hrun, rip', hrip', hcontent, hsize, ?_⟩
  exact htypes.resolve_left fun himm => hlong (htype.1 himm)

end Mfs
end OsLab
