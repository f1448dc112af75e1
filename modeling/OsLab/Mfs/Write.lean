import OsLab.Mfs.Chunk

/-!
# Write — storing an immediate file

`Holds` is the invariant that connects an inode with the plain file it stores: the bytes of an
immediate file are in its data area, those of a regular file are found through the zone map.  Every
successful write request keeps it and applies the write to the plain file, also the request that
turns the immediate file into a regular one.
-/

namespace OsLab
namespace Mfs

open OsLab.Lib

/-! ## The chunk loop -/

/-- A write of `n` bytes at `pos` to a regular file that is zero from `size` on.  During the
conversion of an immediate file `i_size` is smaller than `size`, but then the write ends beyond
byte 32 and the file does not. -/
structure WriteStart (sb : SuperBlock) (w : World) (pos n size : Nat) : Prop where
  map : MapOk sb w.core
  type : w.core.rip.type = I_REGULAR
  zero : ∀ p, size ≤ p → byteAt sb w.core p = 0
  safe : size ≤ w.core.rip.i_size ∨ size ≤ 32 ∧ 32 < pos + n
  bound : pos + n < 2 ^ 31

/-- The chunk loop after `cumIo` bytes of such a write. -/
structure Writing (sb : SuperBlock) (w : World) (pos n : Nat) (s : LoopState) : Prop where
  r : s.r = OK
  total : s.cumIo + s.nrbytes = n
  position : s.position = ((pos + s.cumIo : Nat) : Int)
  map : MapOk sb s.world.core
  bytes : ∀ p, byteAt sb s.world.core p = copyBytes (byteAt sb w.core) pos w.user 0 s.cumIo p
  valid : ∀ p, pos ≤ p → p < pos + s.cumIo → (slotOf sb (p / sb.s_block_size)).Valid sb
  user : s.world.user = w.user
  mode : s.world.core.rip.i_mode = w.core.rip.i_mode
  size : s.world.core.rip.i_size = w.core.rip.i_size

theorem toUnsigned_natCast {p : Nat} (h : p < 2 ^ 31) : toUnsigned (p : Int) = p := by
  simp only [toUnsigned]
  omega

section ChunkLoop

variable {env : Env} {sb : SuperBlock} {grant : Grant} {w : World} {pos n size : Nat}
variable {s s' : LoopState} {fSize : Int}

/-- Everything that one turn of the chunk loop can do. -/
theorem chunkStep_cases {rwFlag : RwFlag} {blockSize : Nat} {out : LoopState ⊕ LoopState}
    (h : chunkStep env sb grant rwFlag blockSize fSize s = some out) :
    (out = .inr s ∧ (s.nrbytes = 0 ∨ rwFlag = .reading)) ∨
      ∃ chunk r world, chunk ≤ s.nrbytes ∧
        rwChunk env sb grant s.world (toUnsigned s.position) (toUnsigned s.position % blockSize)
          chunk rwFlag s.cumIo blockSize = some (r, world) ∧
        ((r ≠ OK ∧ out = .inr { s with r := r, world := world }) ∨
          (r = OK ∧
            out = .inl
              { r := r
                world := world
                position := s.position + chunk
                nrbytes := s.nrbytes - chunk
                cumIo := s.cumIo + chunk })) := by
  by_cases hdone : s.nrbytes = 0
  · simp [chunkStep, hdone] at h
    exact .inl ⟨h.symm, .inl hdone⟩
  · by_cases hend : rwFlag = .reading ∧ fSize ≤ s.position
    · simp [chunkStep, hdone, hend] at h
      exact .inl ⟨h.symm, .inr hend.1⟩
    · simp only [chunkStep, hdone, hend, if_false] at h
      rcases Option.map_eq_some_iff.1 h with ⟨⟨r, world⟩, hrw, hout⟩
      refine .inr ⟨_, r, world, ?_, hrw, ?_⟩
      · split <;> omega
      · by_cases hr : r = OK
        · simp only [hr, ne_eq, not_true, if_false] at hout
          exact .inr ⟨hr, by rw [← hout, hr]⟩
        · simp only [ne_eq, hr, not_false_iff, if_true] at hout
          exact .inl ⟨hr, hout.symm⟩

theorem Writing.start (h : WriteStart sb w pos n size) :
    Writing sb w pos n
      { r := OK, world := w, position := (pos : Int), nrbytes := n, cumIo := 0 } where
  r := rfl
  total := Nat.zero_add n
  position := rfl
  map := h.map
  bytes := fun p => by rw [copyBytes_zero]
  valid := fun p hle hlt => absurd hlt (Nat.not_lt_of_ge hle)
  user := rfl
  mode := rfl
  size := rfl

/-- Zeroing a block in front of the chunk destroys nothing. -/
theorem Writing.zero (hstart : WriteStart sb w pos n size) (h : Writing sb w pos n s)
    (hblock : 32 < sb.s_block_size) {chunk : Nat}
    (hchunk : chunk = min s.nrbytes (sb.s_block_size - (pos + s.cumIo) % sb.s_block_size))
    (hoff : (pos + s.cumIo) % sb.s_block_size = 0)
    (hsize : s.world.core.rip.i_size ≤ pos + s.cumIo) :
    ∀ p, pos + s.cumIo + chunk ≤ p → byteAt sb s.world.core p = 0 := by
  intro p hp
  have hout : ¬ (pos ≤ p ∧ p < pos + s.cumIo) := by omega
  rw [h.bytes p, copyBytes, if_neg hout]
  apply hstart.zero
  rw [h.size] at hsize
  rcases hstart.safe with hle | ⟨hsmall, hend⟩
  · omega
  · -- After a conversion: a later block lies behind the immediate content, and a first chunk
    -- at position 0 covers it.
    have htotal := h.total
    by_cases hfirst : pos + s.cumIo = 0
    · have hmod : (pos + s.cumIo) % sb.s_block_size = 0 := hoff
      omega
    · have hle : sb.s_block_size ≤ pos + s.cumIo :=
        Nat.le_of_dvd (Nat.pos_of_ne_zero hfirst) (Nat.dvd_of_mod_eq_zero hoff)
      omega

/-- One turn of the loop. -/
theorem Writing.step (hscale : sb.s_log_zone_size = 0) (ha : AllocOk env sb)
    (hblock : 32 < sb.s_block_size) (hstart : WriteStart sb w pos n size)
    (h : Writing sb w pos n s)
    (hstep : chunkStep env sb grant .writing sb.s_block_size fSize s = some (.inl s')) :
    Writing sb w pos n s' := by
  have htotal := h.total
  have hbound := hstart.bound
  have hpos : toUnsigned s.position = pos + s.cumIo := by
    rw [h.position]
    apply toUnsigned_natCast
    omega
  by_cases hdone : s.nrbytes = 0
  · simp [chunkStep, hdone] at hstep
  · simp only [chunkStep, hdone, if_false, reduceCtorEq, false_and, hpos] at hstep
    generalize hchunk : min s.nrbytes (sb.s_block_size - (pos + s.cumIo) % sb.s_block_size) = chunk
      at hstep
    rcases Option.map_eq_some_iff.1 hstep with ⟨⟨r, world⟩, hrw, hnext⟩
    have hmod := Nat.mod_lt (pos + s.cumIo) sb.block_size_pos
    have hfit : (pos + s.cumIo) % sb.s_block_size + chunk ≤ sb.s_block_size := by omega
    by_cases hr : r = OK
    · subst hr
      have htype : s.world.core.rip.type = I_REGULAR := by
        rw [← hstart.type]
        exact congrArg (fun m => m &&& I_TYPE) h.mode
      have hwritten := rwChunk_writes hscale ha h.map htype hfit
        (h.zero hstart hblock hchunk.symm) hrw
      simp only [ne_eq, not_true, if_false, Sum.inl.injEq] at hnext
      subst hnext
      refine ⟨rfl, ?_, ?_, hwritten.map, ?_, ?_, hwritten.user.trans h.user,
        hwritten.mode.trans h.mode, hwritten.size.trans h.size⟩
      · show s.cumIo + chunk + (s.nrbytes - chunk) = n
        omega
      · show s.position + (chunk : Int) = ((pos + (s.cumIo + chunk) : Nat) : Int)
        rw [h.position]
        omega
      · intro p
        have hold : byteAt sb s.world.core = copyBytes (byteAt sb w.core) pos w.user 0 s.cumIo :=
          funext h.bytes
        have happend := copyBytes_append (byteAt sb w.core) w.user pos 0 s.cumIo chunk
        rw [Nat.zero_add] at happend
        rw [hwritten.bytes p, hold, h.user, happend]
      · -- A byte was written by an earlier turn or lies in the block of this one.
        intro p hle hlt
        by_cases hearly : p < pos + s.cumIo
        · exact h.valid p hle hearly
        · have hlate : p < pos + s.cumIo + chunk := by
            rw [Nat.add_assoc]
            exact hlt
          rw [div_eq_of_chunk hfit (Nat.le_of_not_lt hearly) hlate]
          exact hwritten.valid
    · simp [hr] at hnext

/-- The loop is left with an error or when nothing is left to write. -/
theorem chunkStep_exit
    (hstep : chunkStep env sb grant .writing sb.s_block_size fSize s = some (.inr s')) :
    s'.r ≠ OK ∨ s' = s ∧ s.nrbytes = 0 := by
  rcases chunkStep_cases hstep with ⟨hout, hdone⟩ | ⟨chunk, r, world, _, _, ⟨hr, hout⟩ | ⟨_, hout⟩⟩
  · simp only [reduceCtorEq, or_false] at hdone
    exact .inr ⟨Sum.inr.inj hout, hdone⟩
  · rw [Sum.inr.inj hout]
    exact .inl hr
  · cases hout

/-- A successful chunk loop has written everything. -/
theorem chunkLoop_writes (hscale : sb.s_log_zone_size = 0) (ha : AllocOk env sb)
    (hblock : 32 < sb.s_block_size) (hstart : WriteStart sb w pos n size)
    (hloop : chunkLoop env sb grant .writing sb.s_block_size fSize
      { r := OK, world := w, position := (pos : Int), nrbytes := n, cumIo := 0 } = some s')
    (hr : s'.r = OK) : Writing sb w pos n s' ∧ s'.cumIo = n := by
  refine loop_partial (Writing sb w pos n)
    (fun s' => s'.r = OK → Writing sb w pos n s' ∧ s'.cumIo = n) ?_ ?_ _ _ _
    (Writing.start hstart) hloop hr
  · intro s₁ s₂ h hstep
    exact h.step hscale ha hblock hstart hstep
  · -- Nothing is left to write when the loop ends well.
    intro s₁ s₂ h hstep hok
    rcases chunkStep_exit hstep with hbad | ⟨rfl, hdone⟩
    · exact absurd hok hbad
    · have htotal := h.total
      rw [hdone, Nat.add_zero] at htotal
      exact ⟨h, htotal⟩

end ChunkLoop

/-! ## Conversion -/

section Convert

variable {env : Env} {sb : SuperBlock} {c c' : Core}

/-- The new mode of a converted file. -/
theorem regular_mode_type (m : Nat) : (I_REGULAR ||| (m &&& ALL_MODES)) &&& I_TYPE = I_REGULAR := by
  have hperm : m &&& ALL_MODES &&& I_TYPE = 0 := by
    rw [Nat.and_assoc]
    exact Nat.and_zero m
  calc
    (I_REGULAR ||| (m &&& ALL_MODES)) &&& I_TYPE
        = (I_REGULAR &&& I_TYPE) ||| (m &&& ALL_MODES &&& I_TYPE) := Nat.and_or_distrib_right ..
    _ = (I_REGULAR &&& I_TYPE) ||| 0 := by rw [hperm]
    _ = I_REGULAR := by decide

/-- An inode without zones maps nothing. -/
theorem slotVal_of_no_zones (h : ∀ k, k < V2_NR_TZONES → c.rip.zone k = NO_ZONE) :
    ∀ s : Slot, s.Valid sb → slotVal sb c s = NO_ZONE := by
  have hle := sb.ndzones_le
  have hsingle : c.rip.zone sb.ndzones = NO_ZONE := h _ (by omega)
  have hdouble : c.rip.zone (sb.ndzones + 1) = NO_ZONE := h _ (by omega)
  intro s hs
  cases s with
  | top k => exact h k (Nat.lt_of_lt_of_le hs hle)
  | single e => simp [slotVal, hsingle, entryAt_none]
  | ind i => simp [slotVal, hdouble, entryAt_none]
  | leaf i e => simp [slotVal, hdouble, entryAt_none]

theorem fileZone_of_no_zones (h : ∀ k, k < V2_NR_TZONES → c.rip.zone k = NO_ZONE) (k : Nat) :
    fileZone sb c k = NO_ZONE := by
  by_cases hk : (slotOf sb k).Valid sb
  · simp only [fileZone, hk, if_true]
    exact slotVal_of_no_zones h _ hk
  · simp [fileZone, hk]

theorem mapOk_of_no_zones (h : ∀ k, k < V2_NR_TZONES → c.rip.zone k = NO_ZONE) : MapOk sb c where
  inj := fun s _ hs _ hne _ => absurd (slotVal_of_no_zones h s hs) hne
  legal := fun s hs hne => absurd (slotVal_of_no_zones h s hs) hne
  marked := fun s hs hne => absurd (slotVal_of_no_zones h s hs) hne

theorem zone_removeInodeEntry (rip : Inode) {k : Nat} (hk : k < V2_NR_TZONES) :
    (removeInodeEntry rip).zone k = NO_ZONE := by
  have h0 : 4 * k < 4 * V2_NR_TZONES := by omega
  have h1 : 4 * k + 1 < 4 * V2_NR_TZONES := by omega
  have h2 : 4 * k + 2 < 4 * V2_NR_TZONES := by omega
  have h3 : 4 * k + 3 < 4 * V2_NR_TZONES := by omega
  simp [Inode.zone, removeInodeEntry, word, h0, h1, h2, h3, NO_ZONE]

/-- The first block of a file has a slot. -/
theorem valid_first (sb : SuperBlock) : (slotOf sb 0).Valid sb := by
  have hpos := sb.ndzones_pos
  simp only [slotOf, hpos, if_true, Slot.Valid]
  exact Nat.add_pos_left hpos 2

/-- After the conversion the first block holds the bytes that were in the inode. -/
theorem convert_ok (hscale : sb.s_log_zone_size = 0) (ha : AllocOk env sb)
    (hblock : 32 < sb.s_block_size) (hsize : c.rip.i_size ≤ 32)
    (hok : convert env sb c c.rip.i_size = some (.ok (), c')) :
    MapOk sb c' ∧ c'.rip.type = I_REGULAR ∧
      ∀ p, byteAt sb c' p = if p < c.rip.i_size then c.rip.i_zone p else 0 := by
  have hbuffer : ¬ I_ZONE_BYTES < c.rip.i_size := by
    simp only [I_ZONE_BYTES]
    omega
  simp only [convert, hbuffer, if_false] at hok
  rcases Option.map_eq_some_iff.1 hok with ⟨⟨res, c₁⟩, hnew, hcopy⟩
  -- `remove_inode_entry` and the new mode leave an empty regular file.
  generalize hcleared : ({ c with rip := { removeInodeEntry c.rip with
    i_mode := I_REGULAR ||| ((removeInodeEntry c.rip).i_mode &&& ALL_MODES) } } : Core) = c₀ at hnew
  have hnone : ∀ k, k < V2_NR_TZONES → c₀.rip.zone k = NO_ZONE := by
    intro k hk
    rw [← hcleared]
    exact zone_removeInodeEntry c.rip hk
  have htype : c₀.rip.type = I_REGULAR := by
    rw [← hcleared]
    exact regular_mode_type _
  have hmap : MapOk sb c₀ := mapOk_of_no_zones hnone
  have hempty : ∀ k, fileZone sb c₀ k = NO_ZONE := fileZone_of_no_zones hnone
  have hfirst : 0 / sb.s_block_size = 0 := Nat.zero_div _
  cases res with
  | error r => simp at hcopy
  | ok b =>
      simp only [Prod.mk.injEq, true_and] at hcopy
      -- So the first block is a hole, and `new_block` makes one.
      have hread : readMap sb c₀ 0 = some NO_BLOCK := by
        rw [hmap.readMap hscale (by rw [hfirst]; exact valid_first sb), hempty]
        rfl
      have hblockNew := newBlock_ok hscale ha hmap (by rw [htype]; decide) hread (hempty _) hnew
      rw [hfirst] at hblockNew
      have hzone : fileZone sb c₁ 0 = b := by rw [hblockNew.mapped.zone 0, if_pos rfl]
      have hne : fileZone sb c₁ 0 ≠ NO_ZONE := by
        rw [hzone]
        exact hblockNew.nonzero
      have hwrite := hblockNew.mapped.map.dataWrite hne
        (copyBytes (c₁.disk sb.s_dev b) 0 c.rip.i_zone 0 c.rip.i_size)
      rw [hzone, hcopy] at hwrite
      refine ⟨hwrite.map, ?_, ?_⟩
      · rw [Inode.type, hwrite.rip, hblockNew.mapped.mode]
        exact htype
      · intro p
        rw [hwrite.byteAt_eq hne, hblockNew.byteAt_eq (hempty 0), hblockNew.zeroed]
        by_cases hp : p / sb.s_block_size = 0
        · have hlt : p < sb.s_block_size := by
            rcases Nat.div_eq_zero_iff.1 hp with hzero | hlt
            · exact absurd hzero (Nat.ne_of_gt sb.block_size_pos)
            · exact hlt
          simp [hp, Nat.mod_eq_of_lt hlt, copyBytes, zeros]
        · -- Other blocks are holes, and the immediate content ended in the first one.
          have hge : ¬ p < c.rip.i_size := by
            intro hlt
            exact hp (Nat.div_eq_of_lt (by omega))
          simp [hp, hge, byteAt, hempty]

theorem convert_error {fSize : Nat} {r : Int}
    (h : convert env sb c fSize = some (.error r, c')) : r < 0 := by
  by_cases hbuffer : I_ZONE_BYTES < fSize
  · simp [convert, hbuffer] at h
  · simp only [convert, hbuffer, if_false] at h
    rcases Option.map_eq_some_iff.1 h with ⟨⟨res, c₁⟩, hnew, hresult⟩
    cases res with
    | error r' =>
        simp only [Prod.mk.injEq, Except.error.injEq] at hresult
        rw [← hresult.1]
        exact newBlock_error hnew
    | ok b => simp at hresult

end Convert

end Mfs
end OsLab
