import OsLab.Mfs.Read

/-!
# Size — what requests do to the type and the size of an inode

Mapping blocks changes neither the mode nor the size of an inode, whether it succeeds or not.  So the
size after a successful write is the larger of the old size and the end of the write, and an
immediate inode stays within 32 bytes, also when a request fails on the way.  Nothing is assumed here
about the zone map, the allocator or the kernel's copies.
-/

namespace OsLab
namespace Mfs

open OsLab.Lib

/-- The mode and the size are the same. -/
structure SameSize (c c' : Core) : Prop where
  mode : c'.rip.i_mode = c.rip.i_mode
  size : c'.rip.i_size = c.rip.i_size

section Mapping

variable {env : Env} {sb : SuperBlock} {c c' c'' : Core}

theorem SameSize.refl (c : Core) : SameSize c c :=
  ⟨rfl, rfl⟩

theorem SameSize.of_eq (h : c' = c) : SameSize c c' := by
  rw [h]
  exact .refl c

theorem SameSize.trans (h : SameSize c c') (h' : SameSize c' c'') : SameSize c c'' :=
  ⟨h'.mode.trans h.mode, h'.size.trans h.size⟩

theorem SameSize.type (h : SameSize c c') : c'.rip.type = c.rip.type :=
  congrArg (fun m => m &&& I_TYPE) h.mode

theorem allocZone_sameSize {hint z : Nat} (h : allocZone env c hint = some (z, c')) :
    SameSize c c' := by
  rcases Option.map_eq_some_iff.1 h with ⟨z', _, heq⟩
  cases heq
  exact ⟨rfl, rfl⟩

variable (sb) in
theorem store_sameSize (holder : Holder) (c : Core) (z : Nat) : SameSize c (holder.store sb c z) := by
  cases holder with
  | inode => exact ⟨rfl, rfl⟩
  | entry b index => exact ⟨rfl, rfl⟩

theorem doubleIndirect_sameSize {indEx : Nat} {res : Except Int (Holder × Nat)}
    (h : doubleIndirect env sb c indEx false = some (res, c')) : SameSize c c' := by
  rcases doubleIndirect_cases h with
    ⟨_, ⟨_, rfl⟩ | ⟨z, c₁, halloc, ⟨_, rfl⟩ | ⟨_, rfl, _⟩⟩⟩ | ⟨_, rfl, _⟩
  · exact .refl _
  · have h₁ := allocZone_sameSize halloc
    exact ⟨h₁.mode, h₁.size⟩
  · have h₁ := allocZone_sameSize halloc
    exact ⟨h₁.mode, h₁.size⟩
  · exact .refl _

theorem mapSingle_sameSize {holder : Holder} {z1 ex z : Nat} {r : Int}
    (h : mapSingle env sb c holder z1 ex z = (r, c')) : SameSize c c' := by
  rcases mapSingle_cases h with ⟨_, ⟨_, rfl⟩ | ⟨_, z', c₁, halloc, rfl⟩⟩ | ⟨_, _, rfl⟩
  · exact store_sameSize sb holder c NO_ZONE
  · have hstore := (allocZone_sameSize halloc).trans (store_sameSize sb holder c₁ z')
    exact ⟨hstore.mode, hstore.size⟩
  · exact ⟨rfl, rfl⟩

theorem writeMap_sameSize {position z : Nat} {r : Int}
    (h : writeMap env sb c position z false = some (r, c')) : SameSize c c' := by
  rcases writeMap_cases rfl h with
    ⟨_, _, rfl⟩ | ⟨_, ⟨_, _, rfl⟩ | ⟨_, ⟨_, hmap⟩ | ⟨_, res, c₁, hdouble, ⟨_, rfl⟩ | ⟨_, _, _, hmap⟩⟩⟩⟩
  · exact .refl _
  · exact ⟨rfl, rfl⟩
  · exact mapSingle_sameSize hmap
  · exact doubleIndirect_sameSize hdouble
  · exact (doubleIndirect_sameSize hdouble).trans (mapSingle_sameSize hmap)

/-- `new_block` keeps the mode and the size, also when it fails. -/
theorem newBlock_sameSize {position : Nat} {res : Except Int Nat}
    (h : newBlock env sb c position = some (res, c')) : SameSize c c' := by
  rcases newBlock_cases h with
    ⟨b, _, _, _, rfl⟩ | ⟨_, ⟨_, rfl⟩ | ⟨hint, z, c₁, r, c₂, halloc, hmap, hrest⟩⟩
  · exact ⟨rfl, rfl⟩
  · exact .refl _
  · have h₁ := allocZone_sameSize halloc
    have h₂ := writeMap_sameSize hmap
    have hboth : SameSize c c₂ := ⟨h₂.mode.trans h₁.mode, h₂.size.trans h₁.size⟩
    rcases hrest with ⟨_, _, rfl⟩ | ⟨_, b, _, _, rfl⟩
    · exact ⟨hboth.mode, hboth.size⟩
    · exact ⟨hboth.mode, hboth.size⟩

end Mapping

/-! ## Chunks -/

section Chunks

variable {env : Env} {sb : SuperBlock} {grant : Grant} {w w' : World} {s s' : LoopState}

theorem copyFrom_sameSize {bufOff dev b off chunk : Nat} {r : Int}
    (h : copyFrom grant w bufOff dev b off chunk = (r, w')) : SameSize w.core w'.core := by
  by_cases hgrant : grant bufOff chunk = OK
  · simp only [copyFrom, hgrant, if_true] at h
    cases h
    exact ⟨rfl, rfl⟩
  · simp only [copyFrom, hgrant, if_false] at h
    cases h
    exact .refl _

theorem writeChunk_sameSize {dev b position off chunk bufOff blockSize : Nat} {spec : Bool} {r : Int}
    (h : writeChunk grant w dev b position off chunk bufOff blockSize spec = (r, w')) :
    SameSize w.core w'.core := by
  have hcopy := copyFrom_sameSize h
  refine ⟨hcopy.mode.trans ?_, hcopy.size.trans ?_⟩
  · dsimp only
    split <;> rfl
  · dsimp only
    split <;> rfl

theorem rwChunk_sameSize {position off chunk bufOff blockSize : Nat} {rwFlag : RwFlag} {r : Int}
    (h : rwChunk env sb grant w position off chunk rwFlag bufOff blockSize = some (r, w')) :
    SameSize w.core w'.core := by
  cases rwChunk_done h with
  | read src o hcopy => exact .of_eq (copyTo_core hcopy)
  | failed _ hnew => exact newBlock_sameSize hnew
  | peekedNew hnew => exact newBlock_sameSize hnew
  | peeked => exact .refl _
  | written hblock hchunk =>
      have hwrite := writeChunk_sameSize hchunk
      rcases hblock with hnew | ⟨noRead, rfl⟩
      · exact (newBlock_sameSize hnew).trans hwrite
      · -- Fetching the old block touches the cache only.
        refine ⟨hwrite.mode.trans ?_, hwrite.size.trans ?_⟩
        · simp only [getBlock]
          split <;> rfl
        · simp only [getBlock]
          split <;> rfl

/-- What every turn of the chunk loop keeps, whatever it transfers. -/
structure Progress (s s' : LoopState) : Prop where
  same : SameSize s.world.core s'.world.core
  total : s'.cumIo + s'.nrbytes = s.cumIo + s.nrbytes
  position : s'.position - s'.cumIo = s.position - s.cumIo

theorem Progress.refl (s : LoopState) : Progress s s :=
  ⟨.refl _, rfl, rfl⟩

theorem chunkLoop_progress {rwFlag : RwFlag} {blockSize : Nat} {fSize : Int}
    (h : chunkLoop env sb grant rwFlag blockSize fSize s = some s') :
    Progress s s' ∧ (s'.r = OK → rwFlag ≠ .reading → s'.nrbytes = 0) := by
  refine loop_partial (Progress s)
    (fun s' => Progress s s' ∧ (s'.r = OK → rwFlag ≠ .reading → s'.nrbytes = 0)) ?_ ?_ _ _ _
    (.refl s) h
  · intro s₁ s₂ h₁ hstep
    rcases chunkStep_cases hstep with
      ⟨hout, _⟩ | ⟨chunk, r, world, hle, hrw, ⟨_, hout⟩ | ⟨_, hout⟩⟩
    · cases hout
    · cases hout
    · -- A chunk was transferred, and the counts move by the same amount.
      cases hout
      have htotal := h₁.total
      have hposition := h₁.position
      refine ⟨h₁.same.trans (rwChunk_sameSize hrw), ?_, ?_⟩
      · show s₁.cumIo + chunk + (s₁.nrbytes - chunk) = s.cumIo + s.nrbytes
        omega
      · show s₁.position + (chunk : Int) - ((s₁.cumIo + chunk : Nat) : Int) = s.position - s.cumIo
        omega
  · intro s₁ s₂ h₁ hstep
    rcases chunkStep_cases hstep with
      ⟨hout, hdone⟩ | ⟨chunk, r, world, _, hrw, ⟨hr, hout⟩ | ⟨_, hout⟩⟩
    · cases hout
      exact ⟨h₁, fun _ hflag => hdone.resolve_right hflag⟩
    · cases hout
      exact ⟨⟨h₁.same.trans (rwChunk_sameSize hrw), h₁.total, h₁.position⟩,
        fun hok => absurd hok hr⟩
    · cases hout

end Chunks

/-! ## Requests -/

/-- A regular file, or an immediate one of at most 32 bytes. -/
def Inode.IsFile (rip : Inode) : Prop :=
  rip.type = I_REGULAR ∨ rip.type = I_IMMEDIATE ∧ rip.i_size ≤ 32

section Requests

variable {env : Env} {sb : SuperBlock} {grant : Grant} {w w' : World} {s s' : LoopState}
variable {reply : Reply} {fSize : Int}

theorem Inode.IsFile.size_le {rip : Inode} (h : rip.IsFile) (htype : rip.type = I_IMMEDIATE) :
    rip.i_size ≤ 32 := by
  rcases h with hregular | ⟨_, hsize⟩
  · rw [hregular] at htype
    exact absurd htype (by decide)
  · exact hsize

/-- The end of a write, with the position `last` that it has reached. -/
theorem transfer_size {blockSize : Nat}
    (h : transfer env sb grant .writing blockSize fSize true s = some (reply, w')) :
    ∃ last : Int, last ≤ s.position + s.nrbytes ∧ reply.seekPos = last ∧
      (reply.r = OK → last = s.position + s.nrbytes) ∧
      w'.core.rip.type = s.world.core.rip.type ∧
      w'.core.rip.i_size = if fSize < last then last.toNat else s.world.core.rip.i_size := by
  rcases transfer_writing h with ⟨s', hloop, rfl, _, hcore⟩
  rcases chunkLoop_progress hloop with ⟨hprogress, hdone⟩
  have htotal := hprogress.total
  have hposition := hprogress.position
  refine ⟨s'.position, by omega, rfl, ?_, ?_, ?_⟩
  · intro hr
    have hzero : s'.nrbytes = 0 := hdone hr (by simp)
    omega
  · rw [hcore]
    exact hprogress.same.type
  · rw [hcore, ← hprogress.same.size]

/-- The immediate write changes neither the type nor the size by itself. -/
theorem immediateTransfer_writing {size : Nat}
    (h : immediateTransfer grant .writing size s = some s') :
    SameSize s.world.core s'.world.core ∧ s'.position + s'.nrbytes = s.position + s.nrbytes := by
  simp only [immediateTransfer, reduceCtorEq, if_false] at h
  by_cases hgrant : grant s.cumIo s.nrbytes = OK
  · simp only [hgrant, if_true] at h
    by_cases hbad : s.position < 0 ∨ (I_ZONE_BYTES : Int) < s.position + s.nrbytes
    · simp [hbad] at h
    · simp only [hbad, if_false, Option.some.injEq] at h
      rw [← h]
      exact ⟨⟨rfl, rfl⟩, by simp⟩
  · simp only [hgrant, if_false, Option.some.injEq] at h
    rw [← h]
    exact ⟨.refl _, rfl⟩

/-- The inode after a conversion, also after one that failed. -/
theorem convert_regular {c c' : Core} {size : Nat} {res : Except Int Unit}
    (h : convert env sb c size = some (res, c')) : c'.rip.type = I_REGULAR := by
  by_cases hbuffer : I_ZONE_BYTES < size
  · simp [convert, hbuffer] at h
  · simp only [convert, hbuffer, if_false] at h
    rcases Option.map_eq_some_iff.1 h with ⟨⟨res', c₁⟩, hnew, hresult⟩
    -- The mode is set before the block is asked for, so a failure does not undo it.
    have htype : c₁.rip.type = I_REGULAR :=
      (newBlock_sameSize hnew).type.trans (regular_mode_type _)
    cases res' with
    | error r =>
        cases hresult
        exact htype
    | ok b =>
        cases hresult
        exact htype

/-- The size of a file after a write that ends at `last`. -/
theorem natCast_grown (size : Nat) (last : Int) :
    ((if (size : Int) < last then last.toNat else size : Nat) : Int) = max (size : Int) last := by
  split <;> omega

/-- A write request keeps files files.  If it succeeds, the size is the larger of the old one and the
end of the write. -/
theorem readwriteInode_writing {req : Request} (hreq : req.rwFlag = .writing)
    (hfile : w.core.rip.IsFile) (h : readwriteInode env sb grant w req = some (reply, w')) :
    w'.core.rip.IsFile ∧
      (reply.r = OK → reply.seekPos = req.position + req.nbytes ∧
        (w'.core.rip.i_size : Int) = max (w.core.rip.i_size : Int) (req.position + req.nbytes)) := by
  have htypes : w.core.rip.type = I_IMMEDIATE ∨ w.core.rip.type = I_REGULAR :=
    hfile.elim .inr fun himm => .inl himm.1
  cases readwriteInode_done hreq htypes h with
  | refused hbad => exact ⟨hfile, fun hok => absurd hok hbad⟩
  | unconverted _ _ hconvert =>
      exact ⟨.inl (convert_regular hconvert),
        fun hok => absurd hok (Int.ne_of_lt (convert_error hconvert))⟩
  | converted htype hend hconvert htransfer =>
      -- The write ends behind all of the old content.
      have hsize : w.core.rip.i_size ≤ 32 := hfile.size_le htype
      rcases transfer_size htransfer with ⟨last, _, hseek, hlast, htype', hsize'⟩
      refine ⟨.inl (htype'.trans (convert_regular hconvert)), fun hok => ?_⟩
      have hlast' : last = req.position + req.nbytes := hlast hok
      have hgrown : (w.core.rip.i_size : Int) < last := by omega
      rw [if_pos hgrown] at hsize'
      rw [hseek, hsize', hlast']
      exact ⟨rfl, by omega⟩
  | immediate htype hend htransfer =>
      -- The write ends within the first 32 bytes, however far it gets.
      have hsize : w.core.rip.i_size ≤ 32 := hfile.size_le htype
      rcases Option.bind_eq_some_iff.1 htransfer with ⟨s, himm, htransfer⟩
      rcases immediateTransfer_writing himm with ⟨hsame, hleft⟩
      rcases transfer_size htransfer with ⟨last, hle, hseek, hlast, htype', hsize'⟩
      have hleft' : s.position + s.nrbytes = req.position + req.nbytes := hleft
      have hsame' : s.world.core.rip.i_size = w.core.rip.i_size := hsame.size
      rw [hsame'] at hsize'
      refine ⟨.inr ⟨(htype'.trans hsame.type).trans htype, ?_⟩, fun hok => ?_⟩
      · rw [hsize']
        split <;> omega
      · rw [hseek, hsize', hlast hok, hleft']
        exact ⟨rfl, natCast_grown _ _⟩
  | regular htype htransfer =>
      rcases transfer_size htransfer with ⟨last, _, hseek, hlast, htype', hsize'⟩
      refine ⟨.inl (htype'.trans htype), fun hok => ?_⟩
      have hlast' : last = req.position + req.nbytes := hlast hok
      rw [hseek, hsize', hlast']
      exact ⟨rfl, natCast_grown _ _⟩

end Requests

/-! ## Results -/

section Results

variable {env : Env} {sb : SuperBlock} {grant : Grant} {w w' : World} {s s' : LoopState}

theorem rwChunk_result (hgrant : ∀ off len, grant off len ≤ 0)
    {position off chunk bufOff blockSize : Nat} {rwFlag : RwFlag} {r : Int}
    (h : rwChunk env sb grant w position off chunk rwFlag bufOff blockSize = some (r, w')) :
    r ≤ 0 := by
  cases rwChunk_done h with
  | read src o hcopy =>
      have hr : grant bufOff chunk = r := by
        simp only [copyTo] at hcopy
        split at hcopy <;> exact congrArg Prod.fst hcopy
      rw [← hr]
      exact hgrant _ _
  | failed _ hnew => exact Int.le_of_lt (newBlock_error hnew)
  | peekedNew _ => exact Int.le_refl 0
  | peeked => exact Int.le_refl 0
  | written _ hchunk =>
      rw [writeChunk_answer hchunk]
      exact hgrant _ _

theorem chunkLoop_result (hgrant : ∀ off len, grant off len ≤ 0) {rwFlag : RwFlag} {blockSize : Nat}
    {fSize : Int} (hr : s.r ≤ 0)
    (h : chunkLoop env sb grant rwFlag blockSize fSize s = some s') : s'.r ≤ 0 := by
  refine loop_partial (fun s => s.r ≤ 0) (fun s' => s'.r ≤ 0) ?_ ?_ _ _ _ hr h
  · intro s₁ s₂ h₁ hstep
    rcases chunkStep_cases hstep with
      ⟨hout, _⟩ | ⟨chunk, r, world, _, hrw, ⟨_, hout⟩ | ⟨_, hout⟩⟩
    · cases hout
    · cases hout
    · cases hout
      exact rwChunk_result hgrant hrw
  · intro s₁ s₂ h₁ hstep
    rcases chunkStep_cases hstep with
      ⟨hout, _⟩ | ⟨chunk, r, world, _, hrw, ⟨_, hout⟩ | ⟨_, hout⟩⟩
    · cases hout
      exact h₁
    · cases hout
      exact rwChunk_result hgrant hrw
    · cases hout

theorem transfer_result (hgrant : ∀ off len, grant off len ≤ 0) {rwFlag : RwFlag} {blockSize : Nat}
    {fSize : Int} {growing : Bool} {reply : Reply} (hr : s.r ≤ 0)
    (h : transfer env sb grant rwFlag blockSize fSize growing s = some (reply, w')) :
    reply.r ≤ 0 := by
  rcases Option.map_eq_some_iff.1 h with ⟨s', hloop, hend⟩
  cases hend
  exact chunkLoop_result hgrant hr hloop

theorem immediateTransfer_result (hgrant : ∀ off len, grant off len ≤ 0) {rwFlag : RwFlag}
    {size : Nat} (h : immediateTransfer grant rwFlag size s = some s') : s'.r ≤ 0 := by
  by_cases hreading : rwFlag = .reading
  · by_cases hbuffer : I_ZONE_BYTES < size
    · simp [immediateTransfer, hreading, hbuffer] at h
    · simp only [immediateTransfer, hreading, if_true, hbuffer, if_false] at h
      by_cases hok : grant s.cumIo size = OK
      · simp only [copyTo, hok, if_true, Option.some.injEq] at h
        rw [← h]
        exact Int.le_refl 0
      · simp only [copyTo, hok, if_false, Option.some.injEq] at h
        rw [← h]
        exact hgrant _ _
  · simp only [immediateTransfer, hreading, if_false] at h
    by_cases hok : grant s.cumIo s.nrbytes = OK
    · simp only [hok, if_true] at h
      by_cases hbad : s.position < 0 ∨ (I_ZONE_BYTES : Int) < s.position + s.nrbytes
      · simp [hbad] at h
      · simp only [hbad, if_false, Option.some.injEq] at h
        rw [← h]
        exact Int.le_refl 0
    · simp only [hok, if_false, Option.some.injEq] at h
      rw [← h]
      exact hgrant _ _

theorem checkWrite_result {c : Core} {req : Request} {fSize : Int} {spec : Bool} {r : Int}
    (h : checkWrite sb c req fSize spec = some r) : r ≤ 0 := by
  have hrofs : EROFS ≤ 0 := by decide
  have hfbig : EFBIG ≤ 0 := by decide
  have hok : OK ≤ 0 := by decide
  simp only [checkWrite] at h
  split at h
  · split at h
    · cases h
      exact hrofs
    · split at h
      · cases h
        exact hfbig
      · split at h
        · rcases Option.map_eq_some_iff.1 h with ⟨_, _, rfl⟩
          exact hok
        · cases h
          exact hok
  · split at h
    · cases h
      exact hrofs
    · cases h
      exact hok

/-- A request is refused with an error, or it reaches the chunk loop: straight from the start, with
the inode converted, or after the immediate transfer. -/
theorem readwriteInode_cases {req : Request} {reply : Reply}
    (h : readwriteInode env sb grant w req = some (reply, w')) :
    reply.r < 0 ∨ ∃ s blockSize fSize growing,
      ((∃ c, s = { loopStart w req with world := { w with core := c } }) ∨
        immediateTransfer grant req.rwFlag w.core.rip.i_size (loopStart w req) = some s) ∧
      transfer env sb grant req.rwFlag blockSize fSize growing s = some (reply, w') := by
  simp only [readwriteInode] at h
  rcases Option.bind_eq_some_iff.1 h with ⟨r, hcheck, hrest⟩
  generalize (if (w.core.rip.type == I_BLOCK_SPECIAL) = true then MAX_FILE_POS
    else (w.core.rip.i_size : Int)) = fSize at hrest
  by_cases hok : r = OK
  · simp only [hok, ne_eq, not_true, if_false] at hrest
    split at hrest
    · split at hrest
      · split at hrest
        · rcases Option.bind_eq_some_iff.1 hrest with ⟨⟨res, c⟩, hconvert, htransfer⟩
          cases res with
          | error r' =>
              cases htransfer
              exact .inl (convert_error hconvert)
          | ok u => exact .inr ⟨_, _, _, _, .inl ⟨c, rfl⟩, htransfer⟩
        · rcases Option.bind_eq_some_iff.1 hrest with ⟨s, himm, htransfer⟩
          exact .inr ⟨s, _, _, _, .inr himm, htransfer⟩
      · split at hrest
        · exact .inr ⟨_, _, _, _, .inl ⟨w.core, rfl⟩, hrest⟩
        · rcases Option.bind_eq_some_iff.1 hrest with ⟨s, himm, htransfer⟩
          exact .inr ⟨s, _, _, _, .inr himm, htransfer⟩
    · exact .inr ⟨_, _, _, _, .inl ⟨w.core, rfl⟩, hrest⟩
  · simp only [ne_eq, hok, not_false_iff, if_true] at hrest
    cases hrest
    have hr := checkWrite_result hcheck
    exact .inl (lt_of_le_of_ne hr hok)

/-- `fs_readwrite` returns `OK` or an error, when the kernel's copies do. -/
theorem readwriteInode_result (hgrant : ∀ off len, grant off len ≤ 0) {req : Request}
    {reply : Reply} (h : readwriteInode env sb grant w req = some (reply, w')) : reply.r ≤ 0 := by
  rcases readwriteInode_cases h with hr | ⟨s, _, _, _, hentry, htransfer⟩
  · exact Int.le_of_lt hr
  · have hs : s.r ≤ 0 := by
      rcases hentry with ⟨c, rfl⟩ | himm
      · exact Int.le_refl 0
      · exact immediateTransfer_result hgrant himm
    exact transfer_result hgrant hs htransfer

/-- The immediate transfer moves the position and the count together. -/
theorem immediateTransfer_position {rwFlag : RwFlag} {size : Nat}
    (h : immediateTransfer grant rwFlag size s = some s') :
    s'.position - s'.cumIo = s.position - s.cumIo := by
  by_cases hreading : rwFlag = .reading
  · simp only [immediateTransfer, hreading, if_true] at h
    split at h
    · cases h
    · split at h
      · cases h
        show s.position + (size : Int) - ((s.cumIo + size : Nat) : Int) = s.position - s.cumIo
        omega
      · cases h
        rfl
  · simp only [immediateTransfer, hreading, if_false] at h
    split at h
    · split at h
      · cases h
      · cases h
        show s.position + (s.nrbytes : Int) - ((s.cumIo + s.nrbytes : Nat) : Int) =
          s.position - s.cumIo
        omega
    · cases h
      rfl

/-- Without an error, the position in the reply is the start plus the bytes transferred. -/
theorem readwriteInode_position {req : Request} {reply : Reply}
    (h : readwriteInode env sb grant w req = some (reply, w')) (hr : 0 ≤ reply.r) :
    reply.seekPos = req.position + reply.nbytes := by
  rcases readwriteInode_cases h with hneg | ⟨s, _, _, _, hentry, htransfer⟩
  · exact absurd hr (Int.not_le.2 hneg)
  · have hs : s.position - s.cumIo = req.position := by
      rcases hentry with ⟨c, rfl⟩ | himm
      · exact Int.sub_zero _
      · exact (immediateTransfer_position himm).trans (Int.sub_zero _)
    rcases Option.map_eq_some_iff.1 htransfer with ⟨s', hloop, hend⟩
    cases hend
    have hposition := (chunkLoop_progress hloop).1.position
    show s'.position = req.position + s'.cumIo
    omega

end Results

/-! ## The server -/

section Server

variable {env : Env} {sb : SuperBlock} {grant : Grant} {srv srv' : Server} {buf buf' : Bytes}
variable {ino : Nat} {rip : Inode} {req : Request} {reply : Reply}

/-- A write request to an inode of the server. -/
theorem fsReadwrite_writing (hreq : req.rwFlag = .writing) (hrip : srv.inodes ino = some rip)
    (hfile : rip.IsFile)
    (h : fsReadwrite env sb grant srv buf ino req = some (reply, srv', buf')) :
    (∃ rip', srv'.inodes ino = some rip' ∧ rip'.IsFile ∧
      (reply.r = OK → reply.seekPos = req.position + req.nbytes ∧
        (rip'.i_size : Int) = max (rip.i_size : Int) (req.position + req.nbytes))) ∧
      ∀ j, j ≠ ino → srv'.inodes j = srv.inodes j := by
  simp only [fsReadwrite, hrip] at h
  rcases Option.map_eq_some_iff.1 h with ⟨⟨reply', w'⟩, hrw, hend⟩
  simp only [Prod.mk.injEq] at hend
  rcases hend with ⟨rfl, rfl, -⟩
  rcases readwriteInode_writing hreq hfile hrw with ⟨hfile', hsize⟩
  refine ⟨⟨w'.core.rip, by simp, hfile', hsize⟩, ?_⟩
  intro j hj
  simp [hj]

theorem fsReadwrite_result (hgrant : ∀ off len, grant off len ≤ 0)
    (h : fsReadwrite env sb grant srv buf ino req = some (reply, srv', buf')) : reply.r ≤ 0 := by
  cases hrip : srv.inodes ino with
  | none =>
      simp only [fsReadwrite, hrip, Option.some.injEq, Prod.mk.injEq] at h
      rw [← h.1]
      exact (by decide : EINVAL ≤ 0)
  | some rip =>
      simp only [fsReadwrite, hrip] at h
      rcases Option.map_eq_some_iff.1 h with ⟨⟨reply', w'⟩, hrw, hend⟩
      simp only [Prod.mk.injEq] at hend
      rw [← hend.1]
      exact readwriteInode_result hgrant hrw

theorem fsReadwrite_position
    (h : fsReadwrite env sb grant srv buf ino req = some (reply, srv', buf')) (hr : 0 ≤ reply.r) :
    reply.seekPos = req.position + reply.nbytes := by
  cases hrip : srv.inodes ino with
  | none =>
      simp only [fsReadwrite, hrip, Option.some.injEq, Prod.mk.injEq] at h
      rw [← h.1] at hr
      exact absurd hr (by decide)
  | some rip =>
      simp only [fsReadwrite, hrip] at h
      rcases Option.map_eq_some_iff.1 h with ⟨⟨reply', w'⟩, hrw, hend⟩
      cases hend
      exact readwriteInode_position hrw hr

end Server

end Mfs
end OsLab
