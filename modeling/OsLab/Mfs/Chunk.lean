import OsLab.Mfs.NewBlock

/-!
# Chunk — what one chunk of a write does to the file

`byteAt` is the content of a regular file: the byte that `read_map` leads to, or zero where there is
no block.  A write of a chunk changes exactly the bytes of its range.  This needs care in one place:
`rw_chunk` zeroes a block whose start is not in front of `i_size`, so behind the chunk the block must
have been zero already.
-/

namespace OsLab
namespace Mfs

open OsLab.Lib

/-- The byte at a position of a regular file. -/
def byteAt (sb : SuperBlock) (c : Core) (p : Nat) : UInt8 :=
  if fileZone sb c (p / sb.s_block_size) = NO_ZONE then 0
  else c.disk sb.s_dev (fileZone sb c (p / sb.s_block_size)) (p % sb.s_block_size)

section Content

variable {env : Env} {sb : SuperBlock} {c c' : Core} {k b : Nat}

/-- `read_map` never leads to a block that is not in the map. -/
theorem MapOk.readMap_some (h : MapOk sb c) (hscale : sb.s_log_zone_size = 0) {position : Nat}
    (hread : Mfs.readMap sb c position = some b) :
    b = fileZone sb c (position / sb.s_block_size) := by
  by_cases hvalid : (slotOf sb (position / sb.s_block_size)).Valid sb
  · rw [h.readMap hscale hvalid] at hread
    exact (Option.some.inj hread).symm
  · -- Only a block behind the double indirect ones has no slot.
    rw [fileZone, if_neg hvalid]
    generalize hk : position / sb.s_block_size = k at hvalid ⊢
    rw [valid_slotOf_iff] at hvalid
    have hdirect : ¬ k < sb.ndzones := by omega
    have hsingle : ¬ k - sb.ndzones < sb.nindirs := by omega
    have hindex : sb.nindirs ≤ (k - sb.ndzones - sb.nindirs) / sb.nindirs := by
      rw [Nat.le_div_iff_mul_le sb.nindirs_pos]
      omega
    simp only [Mfs.readMap, hk, hscale, Nat.shiftRight_zero, Nat.shiftLeft_zero, hdirect, hsingle,
      if_false] at hread
    by_cases hz : c.rip.zone (sb.ndzones + 1) = NO_ZONE
    · simp [hz] at hread
      exact hread.symm
    · by_cases hgt : sb.nindirs < (k - sb.ndzones - sb.nindirs) / sb.nindirs
      · simp [hz, hgt] at hread
        exact hread.symm
      · simp [hz, hgt, Mfs.rdIndir, hindex] at hread

/-- A new block reads as zeros, as the hole did that it fills. -/
theorem NewBlock.byteAt_eq (h : NewBlock sb c c' k b) (hempty : fileZone sb c k = NO_ZONE)
    (p : Nat) : byteAt sb c' p = byteAt sb c p := by
  simp only [byteAt, h.mapped.zone]
  by_cases hp : p / sb.s_block_size = k
  · have hb : b ≠ NO_ZONE := h.nonzero
    simp [hp, hempty, hb, h.zeroed, zeros]
  · simp only [hp, if_false]
    by_cases hz : fileZone sb c (p / sb.s_block_size) = NO_ZONE
    · simp [hz]
    · simp only [hz, if_false, h.mapped.data _ hz]

/-- Writing the data of one block. -/
theorem DataWrite.byteAt_eq {data : Bytes} (h : DataWrite sb c c' k data)
    (hne : fileZone sb c k ≠ NO_ZONE) (p : Nat) :
    byteAt sb c' p =
      if p / sb.s_block_size = k then data (p % sb.s_block_size) else byteAt sb c p := by
  simp only [byteAt, h.zone]
  by_cases hp : p / sb.s_block_size = k
  · simp [hp, hne, h.self]
  · simp only [hp, if_false]
    by_cases hz : fileZone sb c (p / sb.s_block_size) = NO_ZONE
    · simp [hz]
    · simp only [hz, if_false, h.other _ hp hz]

/-- A chunk does not leave its block. -/
theorem div_eq_of_chunk {position chunk p : Nat}
    (hfit : position % sb.s_block_size + chunk ≤ sb.s_block_size) (hle : position ≤ p)
    (hlt : p < position + chunk) : p / sb.s_block_size = position / sb.s_block_size := by
  have hposdiv := Nat.div_add_mod position sb.s_block_size
  apply Nat.le_antisymm
  · apply Nat.le_of_lt_succ
    rw [Nat.div_lt_iff_lt_mul sb.block_size_pos]
    calc
      p < position + chunk := hlt
      _ = sb.s_block_size * (position / sb.s_block_size) +
            (position % sb.s_block_size + chunk) := by omega
      _ ≤ sb.s_block_size * (position / sb.s_block_size) + sb.s_block_size :=
          Nat.add_le_add_left hfit _
      _ = (position / sb.s_block_size + 1) * sb.s_block_size := by
          rw [Nat.add_mul, Nat.one_mul, Nat.mul_comm]
  · exact Nat.div_le_div_right hle

/-- A chunk copied into a block: `base` is what the block holds when the copy starts. -/
theorem DataWrite.byteAt_copy {base src : Bytes} {position srcOff chunk : Nat}
    (h : DataWrite sb c c' (position / sb.s_block_size)
      (copyBytes base (position % sb.s_block_size) src srcOff chunk))
    (hne : fileZone sb c (position / sb.s_block_size) ≠ NO_ZONE)
    (hfit : position % sb.s_block_size + chunk ≤ sb.s_block_size)
    (hbase : ∀ p, p / sb.s_block_size = position / sb.s_block_size →
      ¬ (position ≤ p ∧ p < position + chunk) → base (p % sb.s_block_size) = byteAt sb c p)
    (p : Nat) : byteAt sb c' p = copyBytes (byteAt sb c) position src srcOff chunk p := by
  rw [h.byteAt_eq hne p]
  have hposdiv := Nat.div_add_mod position sb.s_block_size
  have hpdiv := Nat.div_add_mod p sb.s_block_size
  by_cases hp : p / sb.s_block_size = position / sb.s_block_size
  · rw [if_pos hp]
    rw [hp] at hpdiv
    by_cases hin : position ≤ p ∧ p < position + chunk
    · have hoff : position % sb.s_block_size ≤ p % sb.s_block_size ∧
          p % sb.s_block_size < position % sb.s_block_size + chunk := by omega
      have hidx : p % sb.s_block_size - position % sb.s_block_size = p - position := by omega
      simp [copyBytes, hin, hoff, hidx]
    · have hoff : ¬ (position % sb.s_block_size ≤ p % sb.s_block_size ∧
          p % sb.s_block_size < position % sb.s_block_size + chunk) := by omega
      rw [copyBytes, if_neg hoff, copyBytes, if_neg hin]
      exact hbase p hp hin
  · have hout : ¬ (position ≤ p ∧ p < position + chunk) :=
      fun hin => hp (div_eq_of_chunk hfit hin.1 hin.2)
    rw [if_neg hp, copyBytes, if_neg hout]

end Content

/-! ## A chunk -/

/-- What a chunk written at `position` does. -/
structure Written (sb : SuperBlock) (w w' : World) (position bufOff chunk : Nat) : Prop where
  map : MapOk sb w'.core
  valid : (slotOf sb (position / sb.s_block_size)).Valid sb
  bytes : ∀ p, byteAt sb w'.core p = copyBytes (byteAt sb w.core) position w.user bufOff chunk p
  user : w'.user = w.user
  mode : w'.core.rip.i_mode = w.core.rip.i_mode
  size : w'.core.rip.i_size = w.core.rip.i_size

section Chunk

variable {env : Env} {sb : SuperBlock} {grant : Grant} {w w' : World}
variable {position chunk bufOff b : Nat}

theorem setBlock_setBlock (c : Core) (dev b : Nat) (data data' : Bytes) :
    (c.setBlock dev b data).setBlock dev b data' = c.setBlock dev b data' := by
  simp [Core.setBlock]

/-- The content of the block when the copy starts. -/
def chunkBase (w : World) (sb : SuperBlock) (b position chunk : Nat) : Bytes :=
  if chunk ≠ sb.s_block_size ∧ position % sb.s_block_size = 0 ∧ w.core.rip.i_size ≤ position then
    zeros
  else w.core.disk sb.s_dev b

/-- A successful `writeChunk` on a regular file is a copy into the block. -/
theorem writeChunk_ok
    (hok : writeChunk grant w sb.s_dev b position (position % sb.s_block_size) chunk bufOff
      sb.s_block_size false = (OK, w')) :
    w' =
      { w with
        core := w.core.setBlock sb.s_dev b
          (copyBytes (chunkBase w sb b position chunk) (position % sb.s_block_size) w.user bufOff
            chunk) } := by
  simp only [writeChunk, copyFrom, chunkBase, true_and] at hok ⊢
  by_cases hgrant : grant bufOff chunk = OK
  · simp only [hgrant, if_true, Prod.mk.injEq, true_and] at hok
    rw [← hok]
    by_cases hzero : chunk ≠ sb.s_block_size ∧ position % sb.s_block_size = 0 ∧
        w.core.rip.i_size ≤ position
    · simp only [hzero, if_true, zeroBlock, setBlock_self, setBlock_setBlock, ne_eq, not_false_iff,
        and_self]
    · simp only [hzero, if_false]
  · simp only [hgrant, if_false, Prod.mk.injEq, false_and] at hok

/-- A chunk copied into the block of its position. -/
theorem MapOk.written (h : MapOk sb w.core) {k : Nat} (hk : position / sb.s_block_size = k)
    (hne : fileZone sb w.core k ≠ NO_ZONE)
    (hfit : position % sb.s_block_size + chunk ≤ sb.s_block_size) {base : Bytes}
    (hbase : ∀ p, p / sb.s_block_size = position / sb.s_block_size →
      ¬ (position ≤ p ∧ p < position + chunk) → base (p % sb.s_block_size) = byteAt sb w.core p) :
    Written sb w
      { w with
        core := w.core.setBlock sb.s_dev (fileZone sb w.core k)
          (copyBytes base (position % sb.s_block_size) w.user bufOff chunk) }
      position bufOff chunk := by
  subst hk
  have hwrite := h.dataWrite hne
    (copyBytes base (position % sb.s_block_size) w.user bufOff chunk)
  refine ⟨hwrite.map, ?_, hwrite.byteAt_copy hne hfit hbase, rfl, rfl, rfl⟩
  by_contra hvalid
  simp [fileZone, hvalid] at hne

/-- Positions of the block that the chunk leaves alone, when the chunk starts the block. -/
theorem le_of_same_block {p : Nat} (hoff : position % sb.s_block_size = 0)
    (hp : p / sb.s_block_size = position / sb.s_block_size)
    (hout : ¬ (position ≤ p ∧ p < position + chunk)) : position + chunk ≤ p := by
  have hposdiv := Nat.div_add_mod position sb.s_block_size
  have hpdiv := Nat.div_add_mod p sb.s_block_size
  rw [hp] at hpdiv
  omega

/-- A chunk written into a block that is there already. -/
theorem writeChunk_existing (h : MapOk sb w.core) {k : Nat} (hk : position / sb.s_block_size = k)
    (hne : fileZone sb w.core k ≠ NO_ZONE)
    (hfit : position % sb.s_block_size + chunk ≤ sb.s_block_size)
    (hzero : position % sb.s_block_size = 0 → w.core.rip.i_size ≤ position →
      ∀ p, position + chunk ≤ p → byteAt sb w.core p = 0) {noRead : Bool}
    (hnoRead : noRead = true ↔ chunk = sb.s_block_size ∨
      position % sb.s_block_size = 0 ∧ w.core.rip.i_size ≤ position)
    (hok : writeChunk grant
      { w with core := getBlock env w.core sb.s_dev (fileZone sb w.core k) noRead } sb.s_dev
      (fileZone sb w.core k) position (position % sb.s_block_size) chunk bufOff sb.s_block_size
      false = (OK, w')) :
    Written sb w w' position bufOff chunk := by
  rw [writeChunk_ok hok]
  cases noRead with
  | false =>
      -- The block is read in and partially overwritten.
      have hold : ¬ (chunk = sb.s_block_size ∨
          position % sb.s_block_size = 0 ∧ w.core.rip.i_size ≤ position) :=
        fun hnew => Bool.false_ne_true (hnoRead.2 hnew)
      apply h.written hk hne hfit
      intro p hp _
      have hkeep : ¬ (chunk ≠ sb.s_block_size ∧ position % sb.s_block_size = 0 ∧
          w.core.rip.i_size ≤ position) := fun hfresh => hold (.inr hfresh.2)
      simp only [chunkBase, getBlock, Bool.false_eq_true, if_false, hkeep]
      simp only [byteAt, hp, hk, hne, if_false]
  | true =>
      have hrip : (getBlock env w.core sb.s_dev (fileZone sb w.core k) true).rip = w.core.rip := rfl
      simp only [getBlock, if_true, setBlock_setBlock]
      apply h.written hk hne hfit
      intro p hp hout
      rcases hnoRead.1 rfl with hfull | ⟨hoff, hsize⟩
      · -- A full block leaves nothing of what was there.
        have hoff : position % sb.s_block_size = 0 := by omega
        have hposdiv := Nat.div_add_mod position sb.s_block_size
        have hpdiv := Nat.div_add_mod p sb.s_block_size
        have hlt := Nat.mod_lt p sb.block_size_pos
        rw [hp] at hpdiv
        omega
      · have hle := le_of_same_block hoff hp hout
        by_cases hfull : chunk = sb.s_block_size
        · have hposdiv := Nat.div_add_mod position sb.s_block_size
          have hpdiv := Nat.div_add_mod p sb.s_block_size
          have hlt := Nat.mod_lt p sb.block_size_pos
          rw [hp] at hpdiv
          omega
        · simp only [chunkBase, ne_eq, hfull, not_false_iff, hoff, setBlock_rip, hsize, and_self,
            if_true]
          exact (hzero hoff hsize p hle).symm

/-- A chunk written into a new block. -/
theorem writeChunk_new {c : Core} {k : Nat} (hk : position / sb.s_block_size = k)
    (hempty : fileZone sb w.core k = NO_ZONE) (hnew : NewBlock sb w.core c k b)
    (hfit : position % sb.s_block_size + chunk ≤ sb.s_block_size)
    (hok : writeChunk grant { w with core := c } sb.s_dev b position (position % sb.s_block_size)
      chunk bufOff sb.s_block_size false = (OK, w')) :
    Written sb w w' position bufOff chunk := by
  have hzone : fileZone sb c k = b := by rw [hnew.mapped.zone k, if_pos rfl]
  have hne : fileZone sb c k ≠ NO_ZONE := by
    rw [hzone]
    exact hnew.nonzero
  have hbytes : byteAt sb c = byteAt sb w.core := funext (hnew.byteAt_eq hempty)
  have hbase : chunkBase { w with core := c } sb b position chunk = zeros := by
    simp [chunkBase, hnew.zeroed]
  have hwritten : Written sb { w with core := c } w' position bufOff chunk := by
    rw [writeChunk_ok hok, hbase, ← hzone]
    apply MapOk.written (w := { w with core := c }) hnew.mapped.map hk hne hfit
    intro p hp _
    simp [byteAt, hp, hk, hzone, hnew.zeroed, zeros]
  refine ⟨hwritten.map, hwritten.valid, ?_, hwritten.user, ?_, ?_⟩
  · intro p
    rw [hwritten.bytes p]
    simp only [hbytes]
  · exact hwritten.mode.trans hnew.mapped.mode
  · exact hwritten.size.trans hnew.mapped.size

/-- Every way through `rw_chunk`. -/
inductive ChunkDone (env : Env) (sb : SuperBlock) (grant : Grant) (w : World)
    (position off chunk bufOff blockSize : Nat) : RwFlag → Int → World → Prop
  | read (src : Bytes) (o : Nat) {r : Int} {w' : World}
      (h : copyTo grant w bufOff src o chunk = (r, w')) :
      ChunkDone env sb grant w position off chunk bufOff blockSize .reading r w'
  | failed {rwFlag : RwFlag} {r : Int} {c : Core} (hflag : rwFlag ≠ .reading)
      (h : newBlock env sb w.core position = some (.error r, c)) :
      ChunkDone env sb grant w position off chunk bufOff blockSize rwFlag r { w with core := c }
  | peekedNew {b : Nat} {c : Core} (h : newBlock env sb w.core position = some (.ok b, c)) :
      ChunkDone env sb grant w position off chunk bufOff blockSize .peeking OK { w with core := c }
  | peeked : ChunkDone env sb grant w position off chunk bufOff blockSize .peeking OK w
  | written {c : Core} {dev b : Nat} {spec : Bool} {r : Int} {w' : World}
      (hblock : newBlock env sb w.core position = some (.ok b, c) ∨
        ∃ noRead, c = getBlock env w.core dev b noRead)
      (h : writeChunk grant { w with core := c } dev b position off chunk bufOff blockSize spec =
        (r, w')) :
      ChunkDone env sb grant w position off chunk bufOff blockSize .writing r w'

theorem rwChunk_done {off blockSize : Nat} {rwFlag : RwFlag} {r : Int}
    (h : rwChunk env sb grant w position off chunk rwFlag bufOff blockSize = some (r, w')) :
    ChunkDone env sb grant w position off chunk bufOff blockSize rwFlag r w' := by
  rcases Option.bind_eq_some_iff.1 h with ⟨b, _, hrest⟩
  by_cases hnone : (w.core.rip.type == I_BLOCK_SPECIAL) = false ∧ b = NO_BLOCK
  · simp only [hnone, and_self, if_true] at hrest
    cases rwFlag with
    | reading => exact .read _ _ (Option.some.inj hrest)
    | writing =>
        rcases Option.map_eq_some_iff.1 hrest with ⟨⟨res, c⟩, hnew, hchunk⟩
        cases res with
        | error r' =>
            cases hchunk
            exact .failed (by simp) hnew
        | ok b' => exact .written (.inl hnew) hchunk
    | peeking =>
        rcases Option.map_eq_some_iff.1 hrest with ⟨⟨res, c⟩, hnew, hchunk⟩
        cases res with
        | error r' =>
            cases hchunk
            exact .failed (by simp) hnew
        | ok b' =>
            cases hchunk
            exact .peekedNew hnew
  · simp only [hnone, if_false] at hrest
    cases rwFlag with
    | reading => exact .read _ _ (Option.some.inj hrest)
    | writing => exact .written (.inr ⟨_, rfl⟩) (Option.some.inj hrest)
    | peeking =>
        cases hrest
        exact .peeked

/-- A copy from the caller ends with the answer of the kernel. -/
theorem writeChunk_answer {dev off blockSize : Nat} {spec : Bool} {r : Int}
    (h : writeChunk grant w dev b position off chunk bufOff blockSize spec = (r, w')) :
    r = grant bufOff chunk := by
  simp only [writeChunk, copyFrom] at h
  split at h <;> exact (congrArg Prod.fst h).symm

/-- `rw_chunk` writes its range of a regular file and nothing else. -/
theorem rwChunk_writes (hscale : sb.s_log_zone_size = 0) (ha : AllocOk env sb)
    (h : MapOk sb w.core) (htype : w.core.rip.type = I_REGULAR)
    (hfit : position % sb.s_block_size + chunk ≤ sb.s_block_size)
    (hzero : position % sb.s_block_size = 0 → w.core.rip.i_size ≤ position →
      ∀ p, position + chunk ≤ p → byteAt sb w.core p = 0)
    (hok : rwChunk env sb grant w position (position % sb.s_block_size) chunk .writing bufOff
      sb.s_block_size = some (OK, w')) :
    Written sb w w' position bufOff chunk := by
  have hspec : (I_REGULAR == I_BLOCK_SPECIAL) = false := by decide
  simp only [rwChunk, htype, hspec, Bool.false_eq_true, if_false, true_and] at hok
  rcases Option.bind_eq_some_iff.1 hok with ⟨b, hread, hrest⟩
  have hb := h.readMap_some hscale hread
  generalize hk : position / sb.s_block_size = k at hb
  by_cases hempty : b = NO_BLOCK
  · simp only [hempty, if_true] at hrest
    rcases Option.map_eq_some_iff.1 hrest with ⟨⟨res, c⟩, hnew, hchunk⟩
    cases res with
    | error r => exact absurd (congrArg Prod.fst hchunk) (Int.ne_of_lt (newBlock_error hnew))
    | ok b' =>
        have hzone : fileZone sb w.core k = NO_ZONE := hb.symm.trans hempty
        have hblock := newBlock_ok hscale ha h (by rw [htype]; decide) (hempty ▸ hread)
          (hk.symm ▸ hzone) hnew
        rw [hk] at hblock
        exact writeChunk_new hk hzone hblock hfit hchunk
  · simp only [hempty, if_false, Option.some.injEq] at hrest
    subst hb
    exact writeChunk_existing h hk hempty hfit hzero (by simp) hrest

end Chunk

end Mfs
end OsLab
