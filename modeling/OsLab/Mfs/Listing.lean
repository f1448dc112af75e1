import OsLab.Mfs.Getdents
import OsLab.Mfs.Storage

/-!
# Listing — a directory read in pieces is read once

Whatever the sizes of the caller's buffers, the records of the calls so far, followed by those of the
entries from the current position on, are the records of the whole directory in order.
-/

namespace OsLab
namespace Mfs

open OsLab.Lib

/-! ## Record lengths -/

theorem direntReclen_pos (l : DirentLayout) (len : Nat) : 0 < direntReclen l len := by
  have hpos := l.align_pos
  have hdiv : 0 < (l.nameOff + len + 1 + (l.align - 1)) / l.align := by
    refine Nat.div_pos ?_ hpos
    omega
  exact Nat.mul_pos hdiv hpos

theorem nameLen_le (block : Bytes) (off : Nat) : nameLen block off ≤ MFS_NAME_MAX := by
  unfold nameLen
  cases h : (List.range MFS_NAME_MAX).find? fun i => block (off + i) == 0 with
  | none => exact Nat.le_refl _
  | some i =>
      have hi := List.mem_range.1 (List.mem_of_find?_eq_some h)
      exact Nat.le_of_lt hi

/-- A record fits into its part of the buffer of the server. -/
theorem direntReclen_lt (l : DirentLayout) {len : Nat} (hlen : len ≤ MFS_NAME_MAX) :
    direntReclen l len < GETDENTS_BUFSIZE l := by
  have hpos := l.align_pos
  have hsize := l.size_ge
  have hdiv := Nat.div_mul_le_self (l.nameOff + len + 1 + (l.align - 1)) l.align
  unfold direntReclen GETDENTS_BUFSIZE
  omega

theorem direntReclen_short (l : DirentLayout) {len : Nat} (hlen : len ≤ MFS_NAME_MAX) :
    direntReclen l len % 2 ^ 16 = direntReclen l len := by
  have hlt := direntReclen_lt l hlen
  have hshort := l.short
  refine Nat.mod_eq_of_lt ?_
  unfold GETDENTS_BUFSIZE at hlt
  omega

theorem entryDirent_reclen {l : DirentLayout} {modeToType : Nat → Nat}
    {inodes : Nat → Option Inode} {block : Bytes} {k : Nat} {dep : Dirent}
    (h : entryDirent l modeToType inodes block k = some dep) :
    dep.d_reclen = direntReclen l (entryLen block k) := by
  rcases Option.map_eq_some_iff.1 h with ⟨rip, -, rfl⟩
  exact direntReclen_short l (nameLen_le _ _)

/-! ## Directories -/

/-- A directory: its size and its blocks are multiples of an entry, it has no holes, behind its end the
last block is empty, and every entry names an inode. -/
structure Directory (sb : SuperBlock) (srv : Server) (ino : Nat) where
  rip : Inode
  block : Nat → Bytes
  found : srv.inodes ino = some rip
  size_dvd : DIR_ENTRY_SIZE ∣ rip.i_size
  block_dvd : DIR_ENTRY_SIZE ∣ sb.s_block_size
  mapped : ∀ b, b * sb.s_block_size < rip.i_size →
    getBlockMap sb ⟨rip, srv.disk, srv.used⟩ (b * sb.s_block_size) = some (block b)
  tail : ∀ b k, k < sb.s_block_size / DIR_ENTRY_SIZE →
    rip.i_size ≤ b * sb.s_block_size + k * DIR_ENTRY_SIZE → entryIno (block b) k = 0
  named : ∀ b k, entryIno (block b) k ≠ 0 → srv.inodes (entryIno (block b) k) ≠ none

namespace Directory

variable {sb : SuperBlock} {srv : Server} {ino : Nat} (D : Directory sb srv ino)
variable (l : DirentLayout) (modeToType : Nat → Nat)

/-- Entries in a block. -/
def perBlock (_ : Directory sb srv ino) : Nat :=
  sb.s_block_size / DIR_ENTRY_SIZE

/-- The blocks of the directory. -/
def blocks : Nat :=
  (D.rip.i_size + (sb.s_block_size - 1)) / sb.s_block_size

/-- Entry `k` of block `b`, with its position, if it is in use. -/
def entry (b k : Nat) : Option (Nat × Dirent) :=
  if entryIno (D.block b) k = 0 then none
  else
    (entryDirent l modeToType srv.inodes (D.block b) k).map fun dep =>
      (b * sb.s_block_size + k * DIR_ENTRY_SIZE, dep)

/-- The entries in use from number `j` on, counted through all blocks. -/
def entriesFrom (j : Nat) : List (Nat × Dirent) :=
  (List.range' j (D.blocks * D.perBlock - j)).filterMap fun j =>
    D.entry l modeToType (j / D.perBlock) (j % D.perBlock)

/-- What is left to be read at a position. -/
def remaining (pos : Nat) : List (Nat × Dirent) :=
  D.entriesFrom l modeToType (pos / DIR_ENTRY_SIZE)

theorem perBlock_mul : D.perBlock * DIR_ENTRY_SIZE = sb.s_block_size :=
  Nat.div_mul_cancel D.block_dvd

theorem perBlock_pos : 0 < D.perBlock := by
  have hmul := D.perBlock_mul
  have hpos := sb.block_size_pos
  rcases Nat.eq_zero_or_pos D.perBlock with h | h
  · rw [h] at hmul
    omega
  · exact h

/-- The weight of a record. -/
def weight (e : Nat × Dirent) : Nat :=
  e.2.d_reclen

theorem entry_eq_some {b k : Nat} {e : Nat × Dirent} (h : D.entry l modeToType b k = some e) :
    e.1 = b * sb.s_block_size + k * DIR_ENTRY_SIZE ∧
      weight e = direntReclen l (entryLen (D.block b) k) := by
  unfold entry at h
  split at h
  · simp at h
  · rcases Option.map_eq_some_iff.1 h with ⟨dep, hdep, rfl⟩
    exact ⟨rfl, entryDirent_reclen hdep⟩

/-- Every entry in use has a record. -/
theorem exists_dirent {b k : Nat} (h : entryIno (D.block b) k ≠ 0) :
    ∃ dep, entryDirent l modeToType srv.inodes (D.block b) k = some dep := by
  rcases Option.ne_none_iff_exists'.1 (D.named b k h) with ⟨rip, hrip⟩
  unfold entryDirent
  rw [hrip]
  exact ⟨_, rfl⟩

/-- The entries from the place `k` of block `b` on are the rest of the block and all that follows. -/
theorem entriesFrom_block {b k : Nat} (hb : b < D.blocks) (hk : k ≤ D.perBlock) :
    D.entriesFrom l modeToType (b * D.perBlock + k) =
      (List.range' k (D.perBlock - k)).filterMap (D.entry l modeToType b) ++
        D.entriesFrom l modeToType ((b + 1) * D.perBlock) := by
  have hpos := D.perBlock_pos
  have hle : (b + 1) * D.perBlock ≤ D.blocks * D.perBlock := Nat.mul_le_mul_right _ hb
  have hsucc : (b + 1) * D.perBlock = b * D.perBlock + D.perBlock := Nat.succ_mul b D.perBlock
  have hlen : D.blocks * D.perBlock - (b * D.perBlock + k) =
      (D.perBlock - k) + (D.blocks * D.perBlock - (b + 1) * D.perBlock) := by
    omega
  have hfirst : List.range' (b * D.perBlock + k) (D.perBlock - k) =
      (List.range' k (D.perBlock - k)).map (b * D.perBlock + ·) := by
    rw [List.map_add_range']
  have hnext : b * D.perBlock + k + 1 * (D.perBlock - k) = (b + 1) * D.perBlock := by
    omega
  unfold entriesFrom
  rw [hlen, ← List.range'_append, hnext, List.filterMap_append, hfirst, List.filterMap_map]
  congr 1
  refine List.filterMap_congr ?_
  intro j hj
  have hj' : j < D.perBlock := by
    have := (List.mem_range'_1.1 hj).2
    omega
  have hdiv : (b * D.perBlock + j) / D.perBlock = b := by
    rw [Nat.mul_comm, Nat.mul_add_div hpos, Nat.div_eq_of_lt hj', Nat.add_zero]
  have hmod : (b * D.perBlock + j) % D.perBlock = j := by
    rw [Nat.mul_comm, Nat.mul_add_mod, Nat.mod_eq_of_lt hj']
  simp only [Function.comp_apply, hdiv, hmod]

theorem entriesFrom_end {j : Nat} (h : D.blocks * D.perBlock ≤ j) :
    D.entriesFrom l modeToType j = [] := by
  simp [entriesFrom, Nat.sub_eq_zero_of_le h]

theorem lt_blocks_iff {b : Nat} : b < D.blocks ↔ b * sb.s_block_size < D.rip.i_size := by
  have hpos := sb.block_size_pos
  unfold blocks
  rw [Nat.lt_iff_add_one_le, Nat.le_div_iff_mul_le hpos, Nat.succ_mul]
  omega

/-! ## The buffers -/

/-- The records that have been collected: those copied, one piece behind the other, and those in the
buffer of the server. -/
structure Collected (g : Buffers) (records : List Dirent) : Prop where
  records : g.copies.flatMap Prod.snd ++ g.tmp = records
  tmpOff : g.tmpbufOff = (g.tmp.map Dirent.d_reclen).sum
  userOff : g.userbufOff = ((g.copies.flatMap Prod.snd).map Dirent.d_reclen).sum
  copies : EndToEnd Dirent.d_reclen 0 g.copies

theorem Collected.total {g : Buffers} {records : List Dirent} (h : Collected g records) :
    g.userbufOff + g.tmpbufOff = (records.map Dirent.d_reclen).sum := by
  rw [h.userOff, h.tmpOff, ← h.records, List.map_append, List.sum_append]

theorem Collected.flush {grant : Grant} {g g' : Buffers} {records : List Dirent}
    (h : Collected g records) (hf : Mfs.flush grant g = .ok g') : Collected g' records ∧ g'.tmp = [] := by
  unfold Mfs.flush at hf
  dsimp only at hf
  split at hf
  · simp at hf
  · cases hf
    refine ⟨⟨?_, rfl, ?_, ?_⟩, rfl⟩
    · simp [← h.records]
    · simp [h.userOff, h.tmpOff]
    · exact endToEnd_concat _ _ h.copies (by simp [h.userOff])

theorem Collected.push {g : Buffers} {records : List Dirent} (h : Collected g records) (dep : Dirent) :
    Collected { g with tmp := g.tmp ++ [dep], tmpbufOff := g.tmpbufOff + dep.d_reclen }
      (records ++ [dep]) := by
  refine ⟨?_, ?_, h.userOff, h.copies⟩
  · simp [← h.records]
  · simp [h.tmpOff]

/-- A copy failed. -/
def CopyFailed (grant : Grant) (r : Int) : Prop :=
  r ≠ OK ∧ ∃ off len, grant off len = r

theorem copyFailed_of_flush {grant : Grant} {g : Buffers} {r : Int}
    (h : Mfs.flush grant g = .error r) : CopyFailed grant r := by
  unfold Mfs.flush at h
  dsimp only at h
  split at h
  · rename_i hne
    cases h
    exact ⟨hne, _, _, rfl⟩
  · simp at h

/-! ## The scan of a block -/

/-- Where a scan of the entries `es` ends, after `records`. -/
def ScanEnds (grant : Grant) (size : Nat) (records : List Dirent) (es : List (Nat × Dirent)) :
    Scan → Prop
  | .failed r => CopyFailed grant r
  | .more g => (pack weight size (records.map Dirent.d_reclen).sum es).2 = [] ∧
      Collected g (records ++ es.map Prod.snd)
  | .full g entPos => ∃ e rest,
      (pack weight size (records.map Dirent.d_reclen).sum es).2 = e :: rest ∧ entPos = e.1 ∧
      Collected g (records ++ (pack weight size (records.map Dirent.d_reclen).sum es).1.map Prod.snd)

theorem scanBlock_ends (grant : Grant) (size b : Nat) :
    ∀ (ks : List Nat) {g : Buffers} {records : List Dirent}, Collected g records →
      ∃ out, scanBlock l modeToType grant srv.inodes size (D.block b) (b * sb.s_block_size) ks g =
        some out ∧ ScanEnds grant size records (ks.filterMap (D.entry l modeToType b)) out
  | [], g, records, hg => ⟨.more g, rfl, by simpa [ScanEnds, pack] using hg⟩
  | k :: ks, g, records, hg => by
      unfold scanBlock
      by_cases hino : entryIno (D.block b) k = 0
      · -- The entry is not in use.
        rw [if_pos hino]
        have hskip : (k :: ks).filterMap (D.entry l modeToType b) =
            ks.filterMap (D.entry l modeToType b) := by
          simp [entry, hino]
        rw [hskip]
        exact scanBlock_ends grant size b ks hg
      · rw [if_neg hino]
        rcases D.exists_dirent l modeToType hino with ⟨dep, hdep⟩
        have hreclen := entryDirent_reclen hdep
        have hcons : (k :: ks).filterMap (D.entry l modeToType b) =
            (b * sb.s_block_size + k * DIR_ENTRY_SIZE, dep) ::
              ks.filterMap (D.entry l modeToType b) := by
          simp [entry, hino, hdep]
        rw [hcons]
        dsimp only
        rw [hg.total, ← hreclen]
        by_cases hfull : size ≤ (records.map Dirent.d_reclen).sum + dep.d_reclen
        · rw [if_pos hfull]
          refine ⟨_, rfl, (b * sb.s_block_size + k * DIR_ENTRY_SIZE, dep),
            ks.filterMap (D.entry l modeToType b), ?_, rfl, ?_⟩
          · rw [pack_cons_of_le (by exact hfull)]
          · rw [pack_cons_of_le (by exact hfull)]
            simpa using hg
        · rw [if_neg hfull]
          have hroom : (records.map Dirent.d_reclen).sum +
              weight (b * sb.s_block_size + k * DIR_ENTRY_SIZE, dep) < size := Nat.not_le.1 hfull
          have hsum : ((records ++ [dep]).map Dirent.d_reclen).sum =
              (records.map Dirent.d_reclen).sum +
                weight (b * sb.s_block_size + k * DIR_ENTRY_SIZE, dep) := by
            simp [weight]
          -- The buffer of the server is emptied when it is full.
          cases hflush : (if GETDENTS_BUFSIZE l * GETDENTS_ENTRIES ≤ g.tmpbufOff + dep.d_reclen then
              Mfs.flush grant g else .ok g) with
          | error r =>
              refine ⟨.failed r, rfl, ?_⟩
              split at hflush
              · exact copyFailed_of_flush hflush
              · simp at hflush
          | ok g₁ =>
              have hg₁ : Collected g₁ records := by
                split at hflush
                · exact (hg.flush hflush).1
                · cases hflush
                  exact hg
              rcases scanBlock_ends grant size b ks (hg₁.push dep) with ⟨out, hout, hends⟩
              refine ⟨out, ?_, ?_⟩
              · dsimp only
                rw [hdep]
                exact hout
              · unfold ScanEnds at hends ⊢
                rw [hsum] at hends
                rw [pack_cons_of_lt hroom]
                cases out with
                | failed r => exact hends
                | more g₂ => simpa [List.append_assoc] using hends
                | full g₂ entPos => simpa [List.append_assoc] using hends

/-! ## The loop over the blocks -/

/-- The first entry that is looked at in block `b`. -/
theorem first_entry {pos b : Nat} (hb : pos / sb.s_block_size ≤ b) :
    max (pos / DIR_ENTRY_SIZE) (b * D.perBlock) = b * D.perBlock +
        (if b * sb.s_block_size < pos then pos % sb.s_block_size / DIR_ENTRY_SIZE else 0) ∧
      (if b * sb.s_block_size < pos then pos % sb.s_block_size / DIR_ENTRY_SIZE else 0) ≤
        D.perBlock := by
  have hmul := D.perBlock_mul
  have hpos := sb.block_size_pos
  have hentry : 0 < DIR_ENTRY_SIZE := by decide
  by_cases h : b * sb.s_block_size < pos
  · -- The position is inside the block.
    have hq : pos / sb.s_block_size = b := by
      refine Nat.le_antisymm hb ?_
      exact (Nat.le_div_iff_mul_le hpos).2 (Nat.le_of_lt h)
    have hdecomp := Nat.div_add_mod pos sb.s_block_size
    have hdiv : pos / DIR_ENTRY_SIZE = b * D.perBlock + pos % sb.s_block_size / DIR_ENTRY_SIZE := by
      conv_lhs => rw [← hdecomp, hq, ← hmul, Nat.mul_comm D.perBlock, Nat.mul_assoc,
        Nat.mul_add_div hentry, Nat.mul_comm D.perBlock b]
      rw [Nat.mul_comm DIR_ENTRY_SIZE, hmul]
    have hlt : pos % sb.s_block_size / DIR_ENTRY_SIZE < D.perBlock := by
      refine Nat.div_lt_of_lt_mul ?_
      rw [Nat.mul_comm, hmul]
      exact Nat.mod_lt _ hpos
    rw [if_pos h, hdiv]
    exact ⟨Nat.max_eq_left (Nat.le_add_right _ _), Nat.le_of_lt hlt⟩
  · have hle : pos / DIR_ENTRY_SIZE ≤ b * D.perBlock := by
      refine Nat.div_le_of_le_mul ?_
      have hmul' : DIR_ENTRY_SIZE * (b * D.perBlock) = b * sb.s_block_size := by
        rw [← hmul, Nat.mul_comm DIR_ENTRY_SIZE, Nat.mul_assoc]
      rw [hmul']
      exact Nat.not_lt.1 h
    rw [if_neg h]
    exact ⟨Nat.max_eq_right hle, Nat.zero_le _⟩

/-- Where the loop ends. -/
def LoopEnds (grant : Grant) (size : Nat) (records : List Dirent) (es : List (Nat × Dirent)) :
    Except Int (Buffers × Nat × Bool) → Prop
  | .error r => CopyFailed grant r
  | .ok (g, newPos, done) =>
      Collected g (records ++ (pack weight size (records.map Dirent.d_reclen).sum es).1.map Prod.snd) ∧
      ((pack weight size (records.map Dirent.d_reclen).sum es).2 = [] ∧ newPos = D.rip.i_size ∧
          done = false ∨
        ∃ e rest, (pack weight size (records.map Dirent.d_reclen).sum es).2 = e :: rest ∧
          newPos = e.1 ∧ done = true)

/-- Going on behind a block whose entries fit. -/
theorem loopEnds_more {grant : Grant} {size : Nat} {records : List Dirent}
    {es es' : List (Nat × Dirent)} {out : Except Int (Buffers × Nat × Bool)}
    (hfits : (pack weight size (records.map Dirent.d_reclen).sum es).2 = [])
    (h : D.LoopEnds grant size (records ++ es.map Prod.snd) es' out) :
    D.LoopEnds grant size records (es ++ es') out := by
  have hsum : ((records ++ es.map Prod.snd).map Dirent.d_reclen).sum =
      (records.map Dirent.d_reclen).sum + (es.map weight).sum := by
    rw [List.map_append, List.sum_append, List.map_map]
    rfl
  unfold LoopEnds at h ⊢
  rw [hsum] at h
  rw [pack_append_of_fits hfits]
  cases out with
  | error r => exact h
  | ok result => simpa [List.append_assoc] using h

theorem scanLoop_ends (grant : Grant) (size pos : Nat) :
    ∀ (fuel b : Nat) {g : Buffers} {records : List Dirent}, Collected g records →
      pos / sb.s_block_size ≤ b → D.rip.i_size - b * sb.s_block_size < fuel →
      ∃ out, loop (scanStep sb l modeToType grant srv.inodes ⟨D.rip, srv.disk, srv.used⟩ size pos) fuel
          (b * sb.s_block_size, g) = some out ∧
        D.LoopEnds grant size records
          (D.entriesFrom l modeToType (max (pos / DIR_ENTRY_SIZE) (b * D.perBlock))) out
  | 0, _, _, _, _, _, hfuel => absurd hfuel (Nat.not_lt_zero _)
  | fuel + 1, b, g, records, hg, hb, hfuel => by
      have hpos := sb.block_size_pos
      by_cases hend : D.rip.i_size ≤ b * sb.s_block_size
      · have hblocks : D.blocks ≤ b := by
          rw [← Nat.not_lt, D.lt_blocks_iff]
          exact Nat.not_lt.2 hend
        have hnil : D.entriesFrom l modeToType (max (pos / DIR_ENTRY_SIZE) (b * D.perBlock)) = [] := by
          refine D.entriesFrom_end l modeToType ?_
          exact Nat.le_trans (Nat.mul_le_mul_right _ hblocks) (Nat.le_max_right _ _)
        refine ⟨.ok (g, D.rip.i_size, false), loop_exit fuel (by simp [scanStep, hend]), ?_, ?_⟩
        · rw [hnil]
          simpa [pack] using hg
        · rw [hnil]
          exact Or.inl ⟨rfl, rfl, rfl⟩
      · have hlt : b * sb.s_block_size < D.rip.i_size := Nat.not_le.1 hend
        rcases D.first_entry hb with ⟨hfirst, hfirst_le⟩
        have hsplit := D.entriesFrom_block l modeToType (D.lt_blocks_iff.2 hlt) hfirst_le
        rw [← hfirst] at hsplit
        rcases D.scanBlock_ends l modeToType grant size b
          (entryNumbers sb pos (pos % sb.s_block_size) (b * sb.s_block_size)) hg with ⟨out, hscan, hends⟩
        have hes : (entryNumbers sb pos (pos % sb.s_block_size) (b * sb.s_block_size)).filterMap
            (D.entry l modeToType b) = (List.range' (if b * sb.s_block_size < pos then
              pos % sb.s_block_size / DIR_ENTRY_SIZE else 0) (D.perBlock - (if b * sb.s_block_size < pos
              then pos % sb.s_block_size / DIR_ENTRY_SIZE else 0))).filterMap
            (D.entry l modeToType b) := rfl
        rw [hes] at hends
        generalize (List.range' (if b * sb.s_block_size < pos then
              pos % sb.s_block_size / DIR_ENTRY_SIZE else 0) (D.perBlock - (if b * sb.s_block_size < pos
              then pos % sb.s_block_size / DIR_ENTRY_SIZE else 0))).filterMap
            (D.entry l modeToType b) = es at hsplit hends
        rw [hsplit]
        have hstep : scanStep sb l modeToType grant srv.inodes ⟨D.rip, srv.disk, srv.used⟩ size pos
            (b * sb.s_block_size, g) = some (turnOf (b * sb.s_block_size + sb.s_block_size) out) := by
          unfold scanStep
          dsimp only
          rw [if_neg hend, D.mapped b hlt, Option.bind_some, hscan, Option.map_some]
        cases out with
        | failed r => exact ⟨.error r, loop_exit fuel hstep, hends⟩
        | full g₁ entPos =>
            rcases hends with ⟨e, rest, hrest, hentPos, hg₁⟩
            have hne : (pack weight size (records.map Dirent.d_reclen).sum es).2 ≠ [] := by
              rw [hrest]
              exact List.cons_ne_nil _ _
            refine ⟨.ok (g₁, entPos, true), loop_exit fuel hstep, ?_, Or.inr ⟨e, ?_⟩⟩
            · rw [pack_append_of_full hne]
              exact hg₁
            · rw [pack_append_of_full hne, hrest]
              exact ⟨_, rfl, hentPos, rfl⟩
        | more g₁ =>
            -- The block is done, and the loop goes on with the next.
            have hnext : b * sb.s_block_size + sb.s_block_size = (b + 1) * sb.s_block_size :=
              (Nat.succ_mul b sb.s_block_size).symm
            have hmax : max (pos / DIR_ENTRY_SIZE) ((b + 1) * D.perBlock) = (b + 1) * D.perBlock := by
              have hsucc : (b + 1) * D.perBlock = b * D.perBlock + D.perBlock :=
                Nat.succ_mul b D.perBlock
              have hle := Nat.le_max_left (pos / DIR_ENTRY_SIZE) (b * D.perBlock)
              refine Nat.max_eq_right ?_
              omega
            rcases scanLoop_ends grant size pos fuel (b + 1) hends.2 (by omega) (by omega) with
              ⟨out, hout, hloop⟩
            refine ⟨out, ?_, ?_⟩
            · rw [loop_again fuel hstep, hnext]
              exact hout
            · rw [hmax] at hloop
              exact D.loopEnds_more hends.1 hloop

/-! ## Positions -/

theorem entriesFrom_step {j : Nat} (hj : j < D.blocks * D.perBlock) :
    D.entriesFrom l modeToType j =
      (D.entry l modeToType (j / D.perBlock) (j % D.perBlock)).toList ++
        D.entriesFrom l modeToType (j + 1) := by
  have hlen : D.blocks * D.perBlock - j = D.blocks * D.perBlock - (j + 1) + 1 := by
    omega
  unfold entriesFrom
  rw [hlen, List.range'_succ, List.filterMap_cons]
  cases D.entry l modeToType (j / D.perBlock) (j % D.perBlock) with
  | none => rfl
  | some e => rfl

/-- Entry `j` of the directory is in block `j / perBlock`. -/
theorem place (j : Nat) :
    j / D.perBlock * sb.s_block_size + j % D.perBlock * DIR_ENTRY_SIZE = j * DIR_ENTRY_SIZE := by
  rw [← D.perBlock_mul, ← Nat.mul_assoc, ← Nat.add_mul, Nat.mul_comm (j / D.perBlock),
    Nat.div_add_mod]

theorem entry_pos {j : Nat} {e : Nat × Dirent}
    (h : D.entry l modeToType (j / D.perBlock) (j % D.perBlock) = some e) :
    e.1 = j * DIR_ENTRY_SIZE := by
  rw [(D.entry_eq_some l modeToType h).1, D.place]

/-- Reading again from the position of an entry begins with it. -/
theorem remaining_of_append {e : Nat × Dirent} {rest : List (Nat × Dirent)} :
    ∀ (n : Nat) {j : Nat} {es : List (Nat × Dirent)}, D.blocks * D.perBlock - j = n →
      D.entriesFrom l modeToType j = es ++ e :: rest →
      D.remaining l modeToType e.1 = e :: rest ∧ DIR_ENTRY_SIZE ∣ e.1
  | 0, j, es, hn, h => by
      rw [D.entriesFrom_end l modeToType (by omega)] at h
      simp at h
  | n + 1, j, es, hn, h => by
      have hstep := D.entriesFrom_step l modeToType (show j < D.blocks * D.perBlock by omega)
      cases hentry : D.entry l modeToType (j / D.perBlock) (j % D.perBlock) with
      | none =>
          rw [hstep, hentry] at h
          exact remaining_of_append n (by omega) h
      | some e' =>
          have hpos := D.entry_pos l modeToType hentry
          rw [hentry] at hstep
          cases es with
          | nil =>
              have heq : e' = e := by
                rw [hstep] at h
                simpa using (List.cons.inj h).1
              rw [heq] at hpos
              have hj : e.1 / DIR_ENTRY_SIZE = j := by
                rw [hpos, Nat.mul_div_cancel j (by decide)]
              refine ⟨?_, ?_⟩
              · unfold remaining
                rw [hj, h, List.nil_append]
              · rw [hpos]
                exact Nat.dvd_mul_left _ _
          | cons e'' es =>
              rw [hstep] at h
              exact remaining_of_append n (by omega) (List.cons.inj h).2

/-- Nothing is left at the end of the directory. -/
theorem remaining_size : D.remaining l modeToType D.rip.i_size = [] := by
  have hpos := D.perBlock_pos
  have hsize : D.rip.i_size / DIR_ENTRY_SIZE * DIR_ENTRY_SIZE = D.rip.i_size :=
    Nat.div_mul_cancel D.size_dvd
  unfold remaining entriesFrom
  refine List.filterMap_eq_nil_iff.2 ?_
  intro j hj
  have hle : D.rip.i_size / DIR_ENTRY_SIZE ≤ j := (List.mem_range'_1.1 hj).1
  have htail : entryIno (D.block (j / D.perBlock)) (j % D.perBlock) = 0 := by
    refine D.tail _ _ (Nat.mod_lt _ hpos) ?_
    rw [D.place, ← hsize]
    exact Nat.mul_le_mul_right _ hle
  unfold entry
  rw [if_pos htail]

/-! ## One call -/

/-- The entries a call with a buffer of `size` bytes reads. -/
def taken (size pos : Nat) : List (Nat × Dirent) :=
  (pack weight size 0 (D.remaining l modeToType pos)).1

/-- The entries it leaves for the next call. -/
def left (size pos : Nat) : List (Nat × Dirent) :=
  (pack weight size 0 (D.remaining l modeToType pos)).2

theorem taken_append_left (size pos : Nat) :
    D.taken l modeToType size pos ++ D.left l modeToType size pos = D.remaining l modeToType pos :=
  pack_append _ 0

/-- How a request at a position is answered. -/
def Answered (grant : Grant) (size pos : Nat) : Except Int GetdentsReply → Prop
  | .error r => CopyFailed grant r ∨ r = EINVAL ∧ D.taken l modeToType size pos = [] ∧
      D.remaining l modeToType pos ≠ []
  | .ok a => EndToEnd Dirent.d_reclen 0 a.copies ∧
      a.copies.flatMap Prod.snd = (D.taken l modeToType size pos).map Prod.snd ∧
      a.nbytes = ((a.copies.flatMap Prod.snd).map Dirent.d_reclen).sum ∧
      D.remaining l modeToType a.seekPos = D.left l modeToType size pos ∧
      DIR_ENTRY_SIZE ∣ a.seekPos ∧ (a.nbytes = 0 → D.remaining l modeToType pos = [])

theorem reclen_pos (size pos : Nat) :
    ∀ dep ∈ (D.taken l modeToType size pos).map Prod.snd, 0 < dep.d_reclen := by
  intro dep hdep
  rcases List.mem_map.1 hdep with ⟨e, he, rfl⟩
  have hmem : e ∈ D.remaining l modeToType pos := by
    rw [← D.taken_append_left l modeToType size pos]
    exact List.mem_append_left _ he
  rcases List.mem_filterMap.1 hmem with ⟨j, -, hj⟩
  have hweight := (D.entry_eq_some l modeToType hj).2
  change 0 < weight e
  rw [hweight]
  exact direntReclen_pos _ _

theorem eq_nil_of_sum_reclen {records : List Dirent} (hpos : ∀ dep ∈ records, 0 < dep.d_reclen)
    (hsum : (records.map Dirent.d_reclen).sum = 0) : records = [] := by
  refine List.eq_nil_iff_forall_not_mem.2 ?_
  intro dep hdep
  have hzero := List.sum_eq_zero_iff.1 hsum dep.d_reclen (List.mem_map_of_mem hdep)
  exact absurd hzero (Nat.pos_iff_ne_zero.1 (hpos dep hdep))

/-- What is left after the loop is read from `new_pos` on. -/
theorem loopEnds_done {grant : Grant} {size pos : Nat} {g : Buffers} {newPos : Nat} {done : Bool}
    (h : D.LoopEnds grant size [] (D.remaining l modeToType pos) (.ok (g, newPos, done))) :
    Collected g ((D.taken l modeToType size pos).map Prod.snd) ∧
      D.remaining l modeToType newPos = D.left l modeToType size pos ∧ DIR_ENTRY_SIZE ∣ newPos ∧
      (done = true ↔ D.left l modeToType size pos ≠ []) := by
  rcases h with ⟨hg, hends⟩
  refine ⟨hg, ?_⟩
  rcases hends with ⟨hnil, rfl, rfl⟩ | ⟨e, rest, hrest, rfl, rfl⟩
  · have hleft : D.left l modeToType size pos = [] := hnil
    rw [hleft]
    exact ⟨D.remaining_size l modeToType, D.size_dvd, by simp⟩
  · have hleft : D.left l modeToType size pos = e :: rest := hrest
    have hsplit := D.taken_append_left l modeToType size pos
    rw [hleft] at hsplit
    rw [hleft]
    rcases D.remaining_of_append l modeToType _ rfl hsplit.symm with ⟨hagain, haligned⟩
    exact ⟨hagain, haligned, by simp⟩

/-- After the last copy nothing is left in the buffer of the server. -/
theorem Collected.last {grant : Grant} {g : Buffers} {records : List Dirent} (h : Collected g records)
    (hpos : ∀ dep ∈ records, 0 < dep.d_reclen) {out : Except Int Buffers}
    (hout : (if g.tmpbufOff ≠ 0 then Mfs.flush grant g else .ok g) = out) :
    (∃ r, out = .error r ∧ CopyFailed grant r) ∨
      ∃ g', out = .ok g' ∧ g'.copies.flatMap Prod.snd = records ∧ EndToEnd Dirent.d_reclen 0 g'.copies ∧
        g'.userbufOff = (records.map Dirent.d_reclen).sum := by
  -- A buffer without records has all of them copied.
  have hdone : ∀ {g' : Buffers}, Collected g' records → g'.tmp = [] →
      g'.copies.flatMap Prod.snd = records ∧ EndToEnd Dirent.d_reclen 0 g'.copies ∧
        g'.userbufOff = (records.map Dirent.d_reclen).sum := by
    intro g' hg' htmp
    have hrecords := hg'.records
    rw [htmp, List.append_nil] at hrecords
    exact ⟨hrecords, hg'.copies, hrecords ▸ hg'.userOff⟩
  by_cases hoff : g.tmpbufOff ≠ 0
  · rw [if_pos hoff] at hout
    cases out with
    | error r => exact Or.inl ⟨r, rfl, copyFailed_of_flush hout⟩
    | ok g' =>
        rcases h.flush hout with ⟨hg', htmp⟩
        exact Or.inr ⟨g', rfl, hdone hg' htmp⟩
  · rw [if_neg hoff] at hout
    refine Or.inr ⟨g, hout.symm, hdone h (eq_nil_of_sum_reclen ?_ ?_)⟩
    · intro dep hdep
      refine hpos dep ?_
      rw [← h.records]
      exact List.mem_append_right _ hdep
    · rw [← h.tmpOff]
      exact not_not.1 hoff

theorem fsGetdents_answered (grant : Grant) (size : Nat) {pos : Nat} (hpos : DIR_ENTRY_SIZE ∣ pos) :
    ∃ out, fsGetdents sb l modeToType grant srv ino size pos = some out ∧
      D.Answered l modeToType grant size pos out := by
  have hblock := sb.block_size_pos
  have hstart : pos - pos % sb.s_block_size = pos / sb.s_block_size * sb.s_block_size := by
    have := Nat.div_add_mod pos sb.s_block_size
    rw [Nat.mul_comm] at this
    omega
  have hmax : max (pos / DIR_ENTRY_SIZE) (pos / sb.s_block_size * D.perBlock) = pos / DIR_ENTRY_SIZE := by
    refine Nat.max_eq_left ((Nat.le_div_iff_mul_le (by decide)).2 ?_)
    rw [Nat.mul_assoc, D.perBlock_mul]
    exact Nat.div_mul_le_self _ _
  have hempty : Collected ⟨[], 0, 0, []⟩ [] := ⟨rfl, rfl, rfl, trivial⟩
  rcases D.scanLoop_ends l modeToType grant size pos (D.rip.i_size + 1) (pos / sb.s_block_size)
    hempty (Nat.le_refl _) (by omega) with ⟨out, hloop, hends⟩
  rw [hmax] at hends
  rw [← hstart] at hloop
  unfold fsGetdents
  rw [if_neg (not_not.2 (Nat.mod_eq_zero_of_dvd hpos)), D.found]
  dsimp only
  rw [hloop, Option.bind_some]
  cases out with
  | error r => exact ⟨.error r, rfl, Or.inl hends⟩
  | ok result =>
      rcases result with ⟨g, newPos, done⟩
      rcases D.loopEnds_done l modeToType hends with ⟨hg, hrest, haligned, hdone⟩
      have hsplit := D.taken_append_left l modeToType size pos
      have hreclen := D.reclen_pos l modeToType size pos
      dsimp only
      rcases hg.last hreclen rfl with ⟨r, hflush, hr⟩ | ⟨g', hflush, hcopied, hcopies, hbytes⟩
      · refine ⟨.error r, ?_, Or.inl hr⟩
        rw [hflush]
      · rw [hflush]
        have hnone : g'.userbufOff = 0 → D.taken l modeToType size pos = [] := by
          intro hzero
          exact List.map_eq_nil_iff.1 (eq_nil_of_sum_reclen hreclen (hbytes.symm.trans hzero))
        by_cases hsmall : done = true ∧ g'.userbufOff = 0
        · -- Not even the first record fits.
          refine ⟨.error EINVAL, if_pos hsmall, Or.inr ⟨rfl, hnone hsmall.2, ?_⟩⟩
          rw [← hsplit, hnone hsmall.2]
          exact hdone.1 hsmall.1
        · refine ⟨.ok ⟨g'.userbufOff, newPos, g'.copies⟩, if_neg hsmall, hcopies, hcopied, ?_, hrest,
            haligned, ?_⟩
          · rw [hcopied]
            exact hbytes
          · intro hzero
            have hleft : D.left l modeToType size pos = [] := by
              by_contra hne
              exact hsmall ⟨hdone.2 hne, hzero⟩
            rw [← hsplit, hnone hzero, hleft, List.append_nil]

/-! ## A reader -/

/-- The records of a directory, in order. -/
def records : List Dirent :=
  (D.remaining l modeToType 0).map Prod.snd

/-- A call that fails, and leaves everything as it is. -/
def CallFails (q : Ask) (pos : Nat) (a : Answer) : Prop :=
  a.2 = [] ∧ (CopyFailed q.grant a.1 ∨ a.1 = EINVAL ∧ D.taken l modeToType q.size pos = [] ∧
    D.remaining l modeToType pos ≠ [])

/-- The copies of an answer lie end to end in the caller's buffer, and the return value is their
length. -/
def InBuffer (q : Ask) (a : Answer) : Prop :=
  EndToEnd Dirent.d_reclen 0 a.2 ∧ a.1 = ((a.records.map Dirent.d_reclen).sum : Nat) ∧
    (a.records ≠ [] → (a.records.map Dirent.d_reclen).sum < q.size)

theorem doGetdents_answer (q : Ask) {pos : Nat} (hpos : DIR_ENTRY_SIZE ∣ pos) :
    ∃ (a : Answer) (pos' : Nat),
      doGetdents sb l modeToType q.grant srv ino q.size pos = some (a.1, pos', a.2) ∧
      DIR_ENTRY_SIZE ∣ pos' ∧
      (D.CallFails l modeToType q pos a ∧ pos' = pos ∨
        InBuffer q a ∧ a.records = (D.taken l modeToType q.size pos).map Prod.snd ∧
          D.remaining l modeToType pos' = D.left l modeToType q.size pos ∧
          (a.1 = 0 → D.remaining l modeToType pos = [])) := by
  rcases D.fsGetdents_answered l modeToType q.grant q.size hpos with ⟨out, hout, hanswered⟩
  unfold doGetdents
  rw [hout, Option.map_some]
  cases out with
  | error r => exact ⟨(r, []), pos, rfl, hpos, Or.inl ⟨⟨rfl, hanswered⟩, rfl⟩⟩
  | ok reply =>
      rcases hanswered with ⟨hcopies, hrecords, hbytes, hrest, haligned, hzero⟩
      have hin : InBuffer q ((reply.nbytes : Int), reply.copies) := by
        refine ⟨hcopies, ?_, ?_⟩
        · exact congrArg Nat.cast hbytes
        · intro hne
          change reply.copies.flatMap Prod.snd ≠ [] at hne
          change ((reply.copies.flatMap Prod.snd).map Dirent.d_reclen).sum < q.size
          rw [hrecords] at hne ⊢
          have htaken : (pack weight q.size 0 (D.remaining l modeToType pos)).1 ≠ [] := by
            intro hnil
            exact hne (List.map_eq_nil_iff.2 hnil)
          have hlt := pack_sum_lt htaken
          rw [Nat.zero_add] at hlt
          rw [List.map_map]
          exact hlt
      by_cases hpositive : 0 < reply.nbytes
      · refine ⟨(reply.nbytes, reply.copies), reply.seekPos, ?_, haligned, Or.inr ⟨hin, hrecords,
          hrest, ?_⟩⟩
        · dsimp only
          rw [if_pos hpositive]
        · intro h
          exact hzero (Int.natCast_eq_zero.1 h)
      · -- Nothing was left, and the position stays where it is.
        have hnil := hzero (Nat.eq_zero_of_not_pos hpositive)
        refine ⟨(reply.nbytes, reply.copies), pos, ?_, hpos, Or.inr ⟨hin, hrecords, ?_, ?_⟩⟩
        · dsimp only
          rw [if_neg hpositive]
        · have hsplit := D.taken_append_left l modeToType q.size pos
          rw [hnil] at hsplit ⊢
          exact (List.append_eq_nil_iff.1 hsplit).2.symm
        · exact fun _ => hnil

theorem readDir_spec : ∀ (asks : List Ask) {pos : Nat}, DIR_ENTRY_SIZE ∣ pos →
    ∃ answers last, readDir sb l modeToType srv ino asks pos = some (answers, last) ∧
      answers.flatMap Answer.records ++ (D.remaining l modeToType last).map Prod.snd =
        (D.remaining l modeToType pos).map Prod.snd ∧
      List.Forall₂ (fun q a => a.2 = [] ∨ InBuffer q a) asks answers ∧
      ((∃ a ∈ answers, a.1 = 0) → D.remaining l modeToType last = [])
  | [], pos, _ => ⟨[], pos, rfl, rfl, List.Forall₂.nil, by simp⟩
  | q :: qs, pos, hpos => by
      rcases D.doGetdents_answer l modeToType q hpos with ⟨a, pos', hcall, hpos', hcase⟩
      rcases readDir_spec qs hpos' with ⟨answers, last, hrest, hall, hbuffers, hzero⟩
      have hrun : readDir sb l modeToType srv ino (q :: qs) pos = some (a :: answers, last) := by
        unfold readDir
        rw [hcall, Option.bind_some]
        dsimp only
        rw [hrest, Option.map_some]
      have hempty : D.remaining l modeToType pos' = [] → D.remaining l modeToType last = [] := by
        intro hnil
        rw [hnil] at hall
        exact List.map_eq_nil_iff.1 (List.append_eq_nil_iff.1 hall).2
      refine ⟨a :: answers, last, hrun, ?_, List.Forall₂.cons ?_ hbuffers, ?_⟩
      · rw [List.flatMap_cons, List.append_assoc, hall]
        rcases hcase with ⟨hfail, rfl⟩ | ⟨-, hrecords, hleft, -⟩
        · have hnone : a.records = [] := by
            unfold Answer.records
            rw [hfail.1]
            rfl
          rw [hnone, List.nil_append]
        · rw [hrecords, hleft, ← List.map_append, D.taken_append_left]
      · rcases hcase with ⟨hfail, -⟩ | ⟨hin, -⟩
        · exact Or.inl hfail.1
        · exact Or.inr hin
      · rintro ⟨a', ha', h0⟩
        rcases List.mem_cons.1 ha' with rfl | hmem
        · refine hempty ?_
          rcases hcase with ⟨hfail, -⟩ | ⟨-, -, hleft, hnil⟩
          · rcases hfail.2 with hcopy | ⟨heinval, -⟩
            · exact absurd h0 hcopy.1
            · rw [heinval] at h0
              exact absurd h0 (by decide)
          · have hsplit := D.taken_append_left l modeToType q.size pos
            rw [hnil h0] at hsplit
            rw [hleft, (List.append_eq_nil_iff.1 hsplit).2]
        · exact hzero ⟨a', hmem, h0⟩

/-- **A directory is read once.**  Whatever the buffers and the failed copies of the calls, every call
returns, the records reported so far are the first records of the directory, each once and in order, the
records of a call lie end to end within the caller's buffer, and a return value of 0 means that all
records have been reported. -/
theorem getdents_exactly_once (asks : List Ask) :
    ∃ answers last, readDir sb l modeToType srv ino asks 0 = some (answers, last) ∧
      answers.flatMap Answer.records ++ (D.remaining l modeToType last).map Prod.snd =
        D.records l modeToType ∧
      List.Forall₂ (fun q a => a.2 = [] ∨ InBuffer q a) asks answers ∧
      ((∃ a ∈ answers, a.1 = 0) → answers.flatMap Answer.records = D.records l modeToType) := by
  rcases D.readDir_spec l modeToType asks (Nat.dvd_zero DIR_ENTRY_SIZE) with
    ⟨answers, last, hrun, hall, hbuffers, hzero⟩
  refine ⟨answers, last, hrun, hall, hbuffers, ?_⟩
  intro h
  have hend := hzero h
  rw [hend, List.map_nil, List.append_nil] at hall
  exact hall

theorem weight_lt {pos : Nat} : ∀ e ∈ D.remaining l modeToType pos, weight e < GETDENTS_BUFSIZE l := by
  intro e he
  rcases List.mem_filterMap.1 he with ⟨j, -, hj⟩
  rw [(D.entry_eq_some l modeToType hj).2]
  exact direntReclen_lt l (nameLen_le _ _)

/-- A reader whose buffer has room for every record, and whose memory can be written. -/
def Generous (q : Ask) : Prop :=
  GETDENTS_BUFSIZE l ≤ q.size ∧ ∀ off len, q.grant off len = OK

theorem taken_ne_nil {q : Ask} (hq : Generous l q) {pos : Nat}
    (h : D.remaining l modeToType pos ≠ []) : D.taken l modeToType q.size pos ≠ [] := by
  refine pack_ne_nil h ?_
  intro e he
  exact Nat.lt_of_lt_of_le (D.weight_lt l modeToType e he) hq.1

theorem not_callFails {q : Ask} (hq : Generous l q) {pos : Nat} {a : Answer} :
    ¬ D.CallFails l modeToType q pos a := by
  rintro ⟨-, ⟨hne, off, len, hgrant⟩ | ⟨-, htaken, hremaining⟩⟩
  · exact hne (hgrant.symm.trans (hq.2 off len))
  · exact D.taken_ne_nil l modeToType hq hremaining htaken

theorem readDir_generous : ∀ (asks : List Ask) {pos : Nat}, DIR_ENTRY_SIZE ∣ pos →
    (∀ q ∈ asks, Generous l q) →
    ∃ answers last, readDir sb l modeToType srv ino asks pos = some (answers, last) ∧
      (∀ a ∈ answers, 0 ≤ a.1) ∧
      ((D.remaining l modeToType pos).length < asks.length → ∃ a ∈ answers, a.1 = 0)
  | [], pos, _, _ => ⟨[], pos, rfl, by simp, by simp⟩
  | q :: qs, pos, hpos, hall => by
      have hq := hall q (List.mem_cons_self ..)
      rcases D.doGetdents_answer l modeToType q hpos with ⟨a, pos', hcall, hpos', hcase⟩
      rcases readDir_generous qs hpos' (fun q' hq' => hall q' (List.mem_cons_of_mem _ hq')) with
        ⟨answers, last, hrest, hnonneg, hzero⟩
      rcases hcase with ⟨hfail, -⟩ | ⟨hin, hrecords, hleft, -⟩
      · exact absurd hfail (D.not_callFails l modeToType hq)
      · refine ⟨a :: answers, last, ?_, ?_, ?_⟩
        · unfold readDir
          rw [hcall, Option.bind_some]
          dsimp only
          rw [hrest, Option.map_some]
        · intro a' ha'
          rcases List.mem_cons.1 ha' with rfl | hmem
          · rw [hin.2.1]
            exact Int.natCast_nonneg _
          · exact hnonneg a' hmem
        · intro hlength
          have hsplit := D.taken_append_left l modeToType q.size pos
          by_cases hnil : D.remaining l modeToType pos = []
          · -- Nothing is left, so this call returns 0.
            rw [hnil] at hsplit
            refine ⟨a, List.mem_cons_self .., ?_⟩
            rw [hin.2.1, hrecords, (List.append_eq_nil_iff.1 hsplit).1]
            rfl
          · -- This call reports a record, so fewer are left.
            have htaken := List.length_pos_iff.2 (D.taken_ne_nil l modeToType hq hnil)
            have hfewer : (D.remaining l modeToType pos').length < qs.length := by
              rw [hleft]
              rw [← hsplit, List.length_append, List.length_cons] at hlength
              omega
            rcases hzero hfewer with ⟨a', ha', h0⟩
            exact ⟨a', List.mem_cons_of_mem _ ha', h0⟩

/-- **A reader gets the whole directory.**  With buffers that have room for any record and copies that
succeed, no call fails, and after at most one call more than there are records one has returned 0 and
every record has been reported. -/
theorem getdents_complete (asks : List Ask) (hall : ∀ q ∈ asks, Generous l q)
    (hlength : (D.records l modeToType).length < asks.length) :
    ∃ answers last, readDir sb l modeToType srv ino asks 0 = some (answers, last) ∧
      (∀ a ∈ answers, 0 ≤ a.1) ∧ (∃ a ∈ answers, a.1 = 0) ∧
      answers.flatMap Answer.records = D.records l modeToType := by
  have hstart := Nat.dvd_zero DIR_ENTRY_SIZE
  rcases D.readDir_generous l modeToType asks hstart hall with ⟨answers, last, hrun, hnonneg, hzero⟩
  rcases D.readDir_spec l modeToType asks hstart with ⟨answers', last', hrun', hrecords, -, hend⟩
  cases Option.some.inj (hrun.symm.trans hrun')
  have hreturned : ∃ a ∈ answers, a.1 = 0 := by
    refine hzero ?_
    rw [records, List.length_map] at hlength
    exact hlength
  refine ⟨answers, last, hrun, hnonneg, hreturned, ?_⟩
  rw [hend hreturned, List.map_nil, List.append_nil] at hrecords
  exact hrecords

end Directory

/-! ## A small directory -/

theorem twoEntry_pos : 0 < 128 := by decide

theorem twoEntry_lt : 128 < 2 ^ 32 := by decide

theorem twoEntry_indirs : 4 * smallFs.nindirs ≤ 128 := by decide

/-- A file system with blocks of two entries. -/
def twoEntryFs : SuperBlock :=
  { smallFs with
    s_block_size := 128
    block_size_pos := twoEntry_pos
    block_size_lt := twoEntry_lt
    nindirs_le := twoEntry_indirs }

def direntLayout : DirentLayout where
  nameOff := 13
  align := 8
  size := 528
  align_pos := by decide
  size_ge := by decide
  short := by decide

/-- The entry `.` for inode 1, and an entry that is not in use. -/
def firstBlock : Bytes :=
  fun i => if i = 0 then 1 else if i = 4 then 46 else 0

/-- The entry `ab` for inode 2. -/
def secondBlock : Bytes :=
  fun i => if i = 0 then 2 else if i = 4 then 97 else if i = 5 then 98 else 0

def smallDirInode : Inode :=
  { i_mode := 0o040755, i_size := 192, i_zone := setWord (setWord zeros 0 5) 1 6, i_zsearch := 0 }

def smallDirServer : Server :=
  { inodes := fun ino =>
      some (if ino = 1 then smallDirInode else { smallDirInode with i_mode := 0o100644 })
    disk := fun _ b => if b = 5 then firstBlock else if b = 6 then secondBlock else zeros
    used := fun _ => false }

def smallDirectory : Directory twoEntryFs smallDirServer 1 where
  rip := smallDirInode
  block := fun b => if b = 0 then firstBlock else if b = 1 then secondBlock else zeros
  found := rfl
  size_dvd := ⟨3, rfl⟩
  block_dvd := ⟨2, rfl⟩
  mapped := by
    intro b hb
    have hb' : b * 128 < 192 := hb
    have hcases : b = 0 ∨ b = 1 := by omega
    rcases hcases with rfl | rfl
    · rfl
    · rfl
  tail := by
    intro b k hk hsize
    have hk' : k < 2 := hk
    have hsize' : 192 ≤ b * 128 + k * 64 := hsize
    have hcases : b = 1 ∧ k = 1 ∨ ¬ b = 0 ∧ ¬ b = 1 := by omega
    rcases hcases with ⟨rfl, rfl⟩ | ⟨h0, h1⟩
    · decide
    · rw [if_neg h0, if_neg h1]
      exact word_zeros _
  named := fun _ _ _ => Option.some_ne_none _

def smallAsk : Ask :=
  { size := 600, grant := fun _ _ => OK }

/-- One call that gets both entries, and one that gets to the end. -/
theorem getdents_exactly_once_small :
    ∃ answers last,
      readDir twoEntryFs direntLayout id smallDirServer 1 [smallAsk, smallAsk] 0 = some (answers, last) ∧
      answers.flatMap Answer.records ++ (smallDirectory.remaining direntLayout id last).map Prod.snd =
        smallDirectory.records direntLayout id ∧
      List.Forall₂ (fun q a => a.2 = [] ∨ Directory.InBuffer q a) [smallAsk, smallAsk] answers ∧
      ((∃ a ∈ answers, a.1 = 0) →
        answers.flatMap Answer.records = smallDirectory.records direntLayout id) :=
  smallDirectory.getdents_exactly_once direntLayout id [smallAsk, smallAsk]

theorem getdents_complete_small :
    ∃ answers last,
      readDir twoEntryFs direntLayout id smallDirServer 1 [smallAsk, smallAsk, smallAsk] 0 =
        some (answers, last) ∧
      (∀ a ∈ answers, 0 ≤ a.1) ∧ (∃ a ∈ answers, a.1 = 0) ∧
      answers.flatMap Answer.records = smallDirectory.records direntLayout id := by
  refine smallDirectory.getdents_complete direntLayout id [smallAsk, smallAsk, smallAsk] ?_ ?_
  · intro q hq
    rcases List.mem_replicate.1 (show q ∈ List.replicate 3 smallAsk from hq) with ⟨-, rfl⟩
    exact ⟨by decide, fun _ _ => rfl⟩
  · decide +kernel

/-- Two records of 16 bytes, and then the end. -/
example : (readDir twoEntryFs direntLayout id smallDirServer 1 [smallAsk, smallAsk] 0).map
    (fun out => (out.1.map Prod.fst, out.2)) = some ([(32 : Int), 0], 192) := by
  decide +kernel

end Mfs
end OsLab
