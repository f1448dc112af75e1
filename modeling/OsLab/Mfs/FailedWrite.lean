import OsLab.Mfs.Size

/-!
# FailedWrite — an immediate file after a write that failed

A write to an immediate file can fail before it has transferred a byte: it is refused up front, there
is no zone for the conversion, or the caller's bytes cannot be copied.  The conversion clears the
inode and sets its size to 0 in front of the steps that can fail, and the size is restored from the
final position only.  `failed_write_preserves_iff` says when the file is as it was.
-/

namespace OsLab
namespace Mfs

open OsLab.Lib

/-- A file as it is read back: its size and its content. -/
def fileOf (sb : SuperBlock) (srv : Server) (ino : Nat) : Option (Nat × Option (List UInt8)) :=
  (srv.inodes ino).map fun rip => (rip.i_size, storedContent sb (srv.core rip))

/-! ## Chunks on an immediate inode -/

section Chunks

variable {env : Env} {sb : SuperBlock} {grant : Grant} {c c' : Core} {w w' : World}
variable {s s' : LoopState}

/-- On an immediate file `write_map` enters no zone, so the data area stays as it is. -/
theorem newBlock_immediate (htype : c.rip.type = I_IMMEDIATE) {position : Nat}
    {res : Except Int Nat} (h : newBlock env sb c position = some (res, c')) :
    c'.rip.i_zone = c.rip.i_zone := by
  rcases newBlock_cases h with
    ⟨b, _, _, _, rfl⟩ | ⟨_, ⟨_, rfl⟩ | ⟨hint, z, c₁, r, c₂, halloc, hmap, hrest⟩⟩
  · rfl
  · rfl
  · rcases Option.map_eq_some_iff.1 halloc with ⟨z', _, heq⟩
    cases heq
    have hkeep : c₂.rip.i_zone = c.rip.i_zone := by
      rcases writeMap_cases rfl hmap with ⟨_, _, rfl⟩ | ⟨hother, _⟩
      · rfl
      · exact absurd htype hother
    rcases hrest with ⟨_, _, rfl⟩ | ⟨_, b, _, _, rfl⟩
    · exact hkeep
    · exact hkeep

theorem writeChunk_zone {dev b position off chunk bufOff blockSize : Nat} {spec : Bool} {r : Int}
    (h : writeChunk grant w dev b position off chunk bufOff blockSize spec = (r, w')) :
    w'.core.rip.i_zone = w.core.rip.i_zone := by
  have hzero : ∀ fresh : Prop, ∀ [Decidable fresh],
      (if fresh then zeroBlock w.core dev b else w.core).rip = w.core.rip := by
    intro fresh _
    split <;> rfl
  simp only [writeChunk, copyFrom] at h
  split at h
  · rw [← (Prod.mk.inj h).2]
    exact congrArg Inode.i_zone (hzero _)
  · rw [← (Prod.mk.inj h).2]
    exact congrArg Inode.i_zone (hzero _)

theorem rwChunk_immediate (htype : w.core.rip.type = I_IMMEDIATE)
    {position off chunk bufOff blockSize : Nat} {rwFlag : RwFlag} {r : Int}
    (h : rwChunk env sb grant w position off chunk rwFlag bufOff blockSize = some (r, w')) :
    w'.core.rip.i_zone = w.core.rip.i_zone := by
  cases rwChunk_done h with
  | read src o hcopy => rw [copyTo_core hcopy]
  | failed _ hnew => exact newBlock_immediate htype hnew
  | peekedNew hnew => exact newBlock_immediate htype hnew
  | peeked => rfl
  | written hblock hchunk =>
      rw [writeChunk_zone hchunk]
      rcases hblock with hnew | ⟨noRead, rfl⟩
      · exact newBlock_immediate htype hnew
      · simp only [getBlock]
        split <;> rfl

/-- The chunk loop never touches the data area of an immediate inode. -/
theorem chunkLoop_immediate (htype : s.world.core.rip.type = I_IMMEDIATE) {rwFlag : RwFlag}
    {blockSize : Nat} {fSize : Int}
    (h : chunkLoop env sb grant rwFlag blockSize fSize s = some s') :
    s'.world.core.rip.i_zone = s.world.core.rip.i_zone := by
  refine loop_partial
    (fun s₁ => s₁.world.core.rip.type = I_IMMEDIATE ∧
      s₁.world.core.rip.i_zone = s.world.core.rip.i_zone)
    (fun s₂ => s₂.world.core.rip.i_zone = s.world.core.rip.i_zone) ?_ ?_ _ _ _ ⟨htype, rfl⟩ h
  · rintro s₁ s₂ ⟨himm, hzone⟩ hstep
    rcases chunkStep_cases hstep with
      ⟨hout, _⟩ | ⟨chunk, r, world, _, hrw, ⟨_, hout⟩ | ⟨_, hout⟩⟩
    · cases hout
    · cases hout
    · cases hout
      exact ⟨(rwChunk_sameSize hrw).type.trans himm, (rwChunk_immediate himm hrw).trans hzone⟩
  · rintro s₁ s₂ ⟨himm, hzone⟩ hstep
    rcases chunkStep_cases hstep with
      ⟨hout, _⟩ | ⟨chunk, r, world, _, hrw, ⟨_, hout⟩ | ⟨_, hout⟩⟩
    · cases hout
      exact hzone
    · cases hout
      exact (rwChunk_immediate himm hrw).trans hzone
    · cases hout

/-- A failed end of a write that has transferred nothing: the position is the old one, and still the
size is set to it if it is behind the end. -/
theorem transfer_failed {blockSize : Nat} {fSize : Int} {reply : Reply}
    (h : transfer env sb grant .writing blockSize fSize true s = some (reply, w'))
    (hnone : reply.nbytes = s.cumIo) :
    w'.core.rip.type = s.world.core.rip.type ∧
      w'.core.rip.i_size =
        (if fSize < s.position then s.position.toNat else s.world.core.rip.i_size) ∧
      (s.world.core.rip.type = I_IMMEDIATE → w'.core.rip.i_zone = s.world.core.rip.i_zone) := by
  rcases transfer_writing h with ⟨s', hloop, rfl, _, hcore⟩
  rcases chunkLoop_progress hloop with ⟨hprogress, _⟩
  have hposition : s'.position = s.position := by
    have hmoved := hprogress.position
    have hcum : s'.cumIo = s.cumIo := hnone
    omega
  rw [hcore, hposition]
  refine ⟨hprogress.same.type, ?_, fun htype => chunkLoop_immediate htype hloop⟩
  show (if fSize < s.position then s.position.toNat else s'.world.core.rip.i_size) = _
  rw [hprogress.same.size]

end Chunks

/-! ## The tests in front of a transfer -/

/-- The tests that refuse a write up front: a file system mounted read-only, and a file that would
grow too big. -/
def Refused (sb : SuperBlock) (req : Request) : Prop :=
  sb.s_rd_only = true ∨ ((sb.s_max_size : Int) - req.nbytes) % 2 ^ 32 < req.position

section Tests

variable {env : Env} {sb : SuperBlock} {grant : Grant} {w w' : World} {req : Request}
variable {reply : Reply}

theorem checkWrite_refused (hreq : req.rwFlag = .writing) (hrefused : Refused sb req) (c : Core)
    (fSize : Int) : ∃ r, r ≠ OK ∧ checkWrite sb c req fSize false = some r := by
  by_cases hro : sb.s_rd_only = true
  · exact ⟨EROFS, by decide, by simp [checkWrite, hreq, hro]⟩
  · have hbig := hrefused.resolve_left hro
    refine ⟨EFBIG, by decide, ?_⟩
    simp only [checkWrite, hreq, true_and, if_true, hro, if_false, hbig, Bool.false_eq_true]

theorem checkWrite_passed (hreq : req.rwFlag = .writing) (hpassed : ¬ Refused sb req) {c : Core}
    {fSize r : Int} (h : checkWrite sb c req fSize false = some r) : r = OK := by
  rcases not_or.1 hpassed with ⟨hro, hbig⟩
  simp only [checkWrite, hreq, hro, hbig, true_and, if_true, if_false, Bool.false_eq_true] at h
  split at h
  · rcases Option.map_eq_some_iff.1 h with ⟨_, _, hr⟩
    exact hr.symm
  · exact (Option.some.inj h).symm

/-- A write to an immediate file: refused, converted or inline. -/
theorem readwriteInode_write (hreq : req.rwFlag = .writing)
    (htype : w.core.rip.type = I_IMMEDIATE)
    (h : readwriteInode env sb grant w req = some (reply, w')) :
    (Refused sb req ∧ w' = w) ∨
      ¬ Refused sb req ∧
        ((32 < req.position + req.nbytes ∧
          ∃ res c, convert env sb w.core w.core.rip.i_size = some (res, c) ∧
            ((∃ r, res = .error r ∧ w' = { w with core := c }) ∨
              (res = .ok () ∧
                transfer env sb grant .writing sb.s_block_size (w.core.rip.i_size : Int) true
                  { loopStart w req with world := { w with core := c } } = some (reply, w')))) ∨
          (¬ 32 < req.position + req.nbytes ∧
            (immediateTransfer grant .writing w.core.rip.i_size (loopStart w req)).bind
              (transfer env sb grant .writing sb.s_block_size (w.core.rip.i_size : Int) true) =
                some (reply, w'))) := by
  have hspec : (I_IMMEDIATE == I_BLOCK_SPECIAL) = false := by decide
  simp only [readwriteInode, htype, hspec, Bool.false_eq_true, if_false, if_true, growing_immediate,
    hreq] at h
  rcases Option.bind_eq_some_iff.1 h with ⟨r, hcheck, hrest⟩
  by_cases hrefused : Refused sb req
  · rcases checkWrite_refused hreq hrefused w.core (w.core.rip.i_size : Int) with ⟨r', hr', hcheck'⟩
    rw [hcheck'] at hcheck
    cases hcheck
    simp only [ne_eq, hr', not_false_iff, if_true, Option.some.injEq, Prod.mk.injEq] at hrest
    exact .inl ⟨hrefused, hrest.2.symm⟩
  · have hr := checkWrite_passed hreq hrefused hcheck
    simp only [hr, ne_eq, not_true, if_false] at hrest
    refine .inr ⟨hrefused, ?_⟩
    by_cases hend : 32 < req.position + req.nbytes
    · simp only [hend, if_true] at hrest
      rcases Option.bind_eq_some_iff.1 hrest with ⟨⟨res, c⟩, hconvert, hafter⟩
      refine .inl ⟨hend, res, c, hconvert, ?_⟩
      cases res with
      | error r' =>
          cases hafter
          exact .inl ⟨r', rfl, rfl⟩
      | ok u => exact .inr ⟨rfl, hafter⟩
    · simp only [hend, if_false] at hrest
      exact .inr ⟨hend, hrest⟩

end Tests

/-! ## The conversion -/

/-- Where the conversion starts to look for a free zone. -/
def conversionHint (sb : SuperBlock) (rip : Inode) : Nat :=
  if rip.i_zsearch = NO_ZONE then sb.s_firstdatazone else rip.i_zsearch

section Conversion

variable {env : Env} {sb : SuperBlock} {c c' : Core}

/-- The first block of an inode without zones: `new_block` fails exactly when there is no free zone. -/
theorem newBlock_first (hzone : c.rip.zone 0 = NO_ZONE) {res : Except Int Nat}
    (h : newBlock env sb c 0 = some (res, c')) :
    (∃ r, res = .error r) ↔ env.alloc c.used (conversionHint sb c.rip) = none := by
  have hpos := sb.ndzones_pos
  have hread : readMap sb c 0 = some NO_BLOCK := by
    simp [readMap, hpos, hzone]
  simp only [newBlock, hread, Option.bind_some, if_true, hzone] at h
  rw [← conversionHint, allocZone] at h
  cases halloc : env.alloc c.used (conversionHint sb c.rip) with
  | none =>
      simp only [halloc, Option.map_none, Option.some.injEq, Prod.mk.injEq] at h
      exact ⟨fun _ => rfl, fun _ => ⟨ENOSPC, h.1.symm⟩⟩
  | some z =>
      -- The zone is entered in the inode, which cannot fail.
      rw [halloc, Option.map_some] at h
      rcases Option.bind_eq_some_iff.1 h with ⟨⟨r, c₂⟩, hmap, hlast⟩
      have hr : r = OK := by
        rcases writeMap_cases rfl hmap with ⟨_, hr, _⟩ | ⟨_, ⟨_, hr, _⟩ | ⟨hfar, _⟩⟩
        · exact hr
        · exact hr
        · exact absurd hpos (by simpa using hfar)
      simp only [hr, ne_eq, not_true, if_false] at hlast
      rcases Option.map_eq_some_iff.1 hlast with ⟨_, _, heq⟩
      refine ⟨?_, fun hnone => absurd hnone (by simp)⟩
      rintro ⟨r', hres⟩
      rw [← (Prod.mk.inj heq).1] at hres
      cases hres

/-- The inode is cleared before a zone is looked for, so it is empty whatever comes of it. -/
theorem convert_cleared {size : Nat} {res : Except Int Unit}
    (h : convert env sb c size = some (res, c')) :
    c'.rip.type = I_REGULAR ∧ c'.rip.i_size = 0 ∧
      ((∃ r, res = .error r) ↔ env.alloc c.used (conversionHint sb c.rip) = none) := by
  refine ⟨convert_regular h, ?_⟩
  by_cases hbuffer : I_ZONE_BYTES < size
  · simp [convert, hbuffer] at h
  · simp only [convert, hbuffer, if_false] at h
    rcases Option.map_eq_some_iff.1 h with ⟨⟨res', c₁⟩, hnew, hresult⟩
    have hfirst := newBlock_first
      (zone_removeInodeEntry c.rip (by decide : 0 < V2_NR_TZONES)) hnew
    have hsize : c₁.rip.i_size = 0 := (newBlock_sameSize hnew).size
    cases res' with
    | error r =>
        cases hresult
        exact ⟨hsize, ⟨fun _ => hfirst.1 ⟨r, rfl⟩, fun _ => ⟨r, rfl⟩⟩⟩
    | ok b =>
        cases hresult
        refine ⟨hsize, ⟨?_, fun hnone => ?_⟩⟩
        · rintro ⟨r, hr⟩
          cases hr
        · rcases hfirst.2 hnone with ⟨r, hr⟩
          cases hr

end Conversion

/-! ## The file afterwards -/

section Afterwards

variable {env : Env} {sb : SuperBlock} {grant : Grant} {w w' : World} {req : Request}
variable {reply : Reply}

/-- The size and the content of a file that a request has left in `c'` are those in `c`. -/
def SameFile (sb : SuperBlock) (c c' : Core) : Prop :=
  c'.rip.i_size = c.rip.i_size ∧ storedContent sb c' = storedContent sb c

theorem storedContent_empty {c : Core} (hsize : c.rip.i_size = 0) :
    storedContent sb c = some [] := by
  by_cases htype : c.rip.type = I_IMMEDIATE
  · rw [storedContent, if_pos htype, hsize]
    rfl
  · rw [storedContent, if_neg htype, hsize]
    rfl

/-- Two files of which one is empty are the same exactly when both are. -/
theorem sameFile_empty {c c' : Core} (h : c'.rip.i_size = 0 ∨ c.rip.i_size = 0) :
    SameFile sb c c' ↔ c'.rip.i_size = 0 ∧ c.rip.i_size = 0 := by
  constructor
  · rintro ⟨hsize, _⟩
    rcases h with h | h
    · exact ⟨h, hsize.symm.trans h⟩
    · exact ⟨hsize.trans h, h⟩
  · rintro ⟨h', h⟩
    exact ⟨h'.trans h.symm, by rw [storedContent_empty h', storedContent_empty h]⟩

/-- The inline write has failed: only a position behind the end changes the file. -/
theorem inline_failed (htype : w.core.rip.type = I_IMMEDIATE) (hpos : 0 ≤ req.position)
    (h : (immediateTransfer grant .writing w.core.rip.i_size (loopStart w req)).bind
      (transfer env sb grant .writing sb.s_block_size (w.core.rip.i_size : Int) true) =
        some (reply, w'))
    (hfail : reply.r ≠ OK) (hnone : reply.nbytes = 0) :
    SameFile sb w.core w'.core ↔ req.position ≤ w.core.rip.i_size := by
  rcases Option.bind_eq_some_iff.1 h with ⟨s, himm, htransfer⟩
  simp only [immediateTransfer, reduceCtorEq, if_false] at himm
  by_cases hgrant : grant 0 req.nbytes = OK
  · -- A copy that is granted ends the request well.
    simp only [loopStart, hgrant, if_true] at himm
    by_cases hbad : req.position < 0 ∨ (I_ZONE_BYTES : Int) < req.position + req.nbytes
    · simp [hbad] at himm
    · simp only [hbad, if_false, Option.some.injEq] at himm
      subst himm
      rcases transfer_writing htransfer with ⟨s', hloop, rfl, _, _⟩
      rw [chunkLoop_done rfl] at hloop
      cases hloop
      exact absurd rfl hfail
  · simp only [loopStart, hgrant, if_false, Option.some.injEq] at himm
    subst himm
    rcases transfer_failed htransfer hnone with ⟨htype', hsize, hzone⟩
    have htype₂ : w'.core.rip.type = I_IMMEDIATE := htype'.trans htype
    have hzone' : w'.core.rip.i_zone = w.core.rip.i_zone := hzone htype
    have hsize' : w'.core.rip.i_size =
        if (w.core.rip.i_size : Int) < req.position then req.position.toNat
        else w.core.rip.i_size := hsize
    constructor
    · rintro ⟨hsame, _⟩
      by_contra hlate
      rw [hsize', if_pos (Int.not_le.1 hlate)] at hsame
      omega
    · intro hle
      rw [if_neg (Int.not_lt.2 hle)] at hsize'
      refine ⟨hsize', ?_⟩
      rw [storedContent, storedContent, if_pos htype₂, if_pos htype, hzone', hsize']

/-- The conversion or the first chunk has failed: only an empty file is the same. -/
theorem convert_failed (hpos : 0 ≤ req.position) {res : Except Int Unit} {c : Core}
    (hconvert : convert env sb w.core w.core.rip.i_size = some (res, c))
    (hafter : (∃ r, res = .error r ∧ w' = { w with core := c }) ∨
      (res = .ok () ∧
        transfer env sb grant .writing sb.s_block_size (w.core.rip.i_size : Int) true
          { loopStart w req with world := { w with core := c } } = some (reply, w')))
    (hnone : reply.nbytes = 0) :
    SameFile sb w.core w'.core ↔ w.core.rip.i_size = 0 ∧
      (req.position = 0 ∨ env.alloc w.core.used (conversionHint sb w.core.rip) = none) := by
  rcases convert_cleared hconvert with ⟨_, hsize, hfull⟩
  rcases hafter with ⟨r, hres, rfl⟩ | ⟨hres, htransfer⟩
  · rw [sameFile_empty (.inl hsize), and_iff_right hsize]
    exact ⟨fun h => ⟨h, .inr (hfull.1 ⟨r, hres⟩)⟩, fun h => h.1⟩
  · have hspace : ¬ env.alloc w.core.used (conversionHint sb w.core.rip) = none := by
      intro hno
      rcases hfull.2 hno with ⟨r, hr⟩
      rw [hres] at hr
      cases hr
    rcases transfer_failed htransfer hnone with ⟨_, hsize', _⟩
    have hsize₂ : w'.core.rip.i_size =
        if (w.core.rip.i_size : Int) < req.position then req.position.toNat else 0 := by
      rw [hsize', ← hsize]
      rfl
    simp only [hspace, or_false]
    by_cases hlate : (w.core.rip.i_size : Int) < req.position
    · rw [if_pos hlate] at hsize₂
      constructor
      · rintro ⟨hsame, _⟩
        omega
      · rintro ⟨_, hzero⟩
        omega
    · rw [if_neg hlate] at hsize₂
      rw [sameFile_empty (.inl hsize₂), and_iff_right hsize₂]
      constructor
      · intro hempty
        exact ⟨hempty, by omega⟩
      · exact fun h => h.1

end Afterwards

/-- **Failed writes.**  A write to an immediate file that fails without having transferred a byte
leaves the file as it was exactly when it is refused up front, or it would have stayed inline and
does not start behind the end, or the file is empty and the write starts at 0 or finds no zone for
the conversion. -/
theorem failed_write_preserves_iff {env : Env} {sb : SuperBlock} {grant : Grant}
    {srv srv' : Server} {user user' : Bytes} {ino : Nat} {rip : Inode} {req : Request}
    {reply : Reply} (hrip : srv.inodes ino = some rip) (htype : rip.type = I_IMMEDIATE)
    (hreq : req.rwFlag = .writing) (hpos : 0 ≤ req.position)
    (h : fsReadwrite env sb grant srv user ino req = some (reply, srv', user'))
    (hfail : reply.r ≠ OK) (hnone : reply.nbytes = 0) :
    fileOf sb srv' ino = fileOf sb srv ino ↔
      Refused sb req ∨
        (req.position + req.nbytes ≤ 32 ∧ req.position ≤ rip.i_size) ∨
        (32 < req.position + req.nbytes ∧ rip.i_size = 0 ∧
          (req.position = 0 ∨ env.alloc srv.used (conversionHint sb rip) = none)) := by
  simp only [fsReadwrite, hrip] at h
  rcases Option.map_eq_some_iff.1 h with ⟨⟨reply', w'⟩, hrw, hend⟩
  simp only [Prod.mk.injEq] at hend
  rcases hend with ⟨rfl, rfl, -⟩
  have hsame : fileOf sb { inodes := Function.update srv.inodes ino (some w'.core.rip)
                           disk := w'.core.disk
                           used := w'.core.used } ino = fileOf sb srv ino ↔
      SameFile sb (srv.core rip) w'.core := by
    simp [fileOf, hrip, SameFile, Server.core]
  rw [hsame]
  rcases readwriteInode_write hreq htype hrw with
    ⟨hrefused, rfl⟩ | ⟨hpassed, ⟨hlong, res, c, hconvert, hafter⟩ | ⟨hshort, hinline⟩⟩
  · exact ⟨fun _ => .inl hrefused, fun _ => ⟨rfl, rfl⟩⟩
  · have hfile : SameFile sb (srv.core rip) w'.core ↔ _ :=
      convert_failed hpos hconvert hafter hnone
    rw [hfile]
    constructor
    · exact fun hempty => .inr (.inr ⟨hlong, hempty⟩)
    · rintro (hrefused | ⟨hle, _⟩ | ⟨_, hempty⟩)
      · exact absurd hrefused hpassed
      · exact absurd hlong (Int.not_lt.2 hle)
      · exact hempty
  · have hfile : SameFile sb (srv.core rip) w'.core ↔ req.position ≤ rip.i_size :=
      inline_failed htype hpos hinline hfail hnone
    rw [hfile]
    constructor
    · exact fun hle => .inr (.inl ⟨Int.not_lt.1 hshort, hle⟩)
    · rintro (hrefused | ⟨_, hle⟩ | ⟨hlong, _⟩)
      · exact absurd hrefused hpassed
      · exact hle
      · exact absurd hlong hshort

/-- A device without a free zone. -/
def fullDevice : Env where
  alloc := fun _ _ => none
  stale := fun _ _ _ => zeros
  blockSizeOf := fun _ => 64

/-- An immediate file with two bytes. -/
def greeting : Server :=
  { inodes := fun ino =>
      if ino = 2 then
        some { i_mode := 0o110644
               i_size := 2
               i_zone := fun i => if i = 0 then 72 else if i = 1 then 105 else 0
               i_zsearch := 0 }
      else none
    disk := fun _ _ => zeros
    used := fun _ => true }

/-- A write of three bytes at position 1 that the kernel does not let the server copy. -/
theorem failed_write_preserves_greeting :
    ∃ reply srv' user', fsReadwrite fullDevice smallFs (fun _ _ => EPERM) greeting zeros 2
        { rwFlag := .writing, position := 1, nbytes := 3 } = some (reply, srv', user') ∧
      reply.r = EPERM ∧ fileOf smallFs srv' 2 = fileOf smallFs greeting 2 := by
  have hsome : (fsReadwrite fullDevice smallFs (fun _ _ => EPERM) greeting zeros 2
      { rwFlag := .writing, position := 1, nbytes := 3 }).isSome = true := by decide +kernel
  rcases Option.isSome_iff_exists.1 hsome with ⟨⟨reply, srv', user'⟩, hrun⟩
  have hreply := congrArg (Option.map Prod.fst) hrun
  have hanswer : (fsReadwrite fullDevice smallFs (fun _ _ => EPERM) greeting zeros 2
      { rwFlag := .writing, position := 1, nbytes := 3 }).map Prod.fst =
        some { r := EPERM, seekPos := 1, nbytes := 0 } := by decide +kernel
  rw [hanswer] at hreply
  have hr : reply = { r := EPERM, seekPos := 1, nbytes := 0 } := (Option.some.inj hreply).symm
  refine ⟨reply, srv', user', hrun, by rw [hr], ?_⟩
  refine (failed_write_preserves_iff rfl (by decide) rfl (by decide) hrun
    (by rw [hr]; decide) (by rw [hr])).2 ?_
  exact .inr (.inl (by decide))

/-- A write of 40 bytes to the same file, with no zone for the conversion: the file is empty
afterwards. -/
theorem full_device_empties_greeting :
    ∃ reply srv' user', fsReadwrite fullDevice smallFs (fun _ _ => OK) greeting zeros 2
        { rwFlag := .writing, position := 0, nbytes := 40 } = some (reply, srv', user') ∧
      reply.r = ENOSPC ∧ reply.nbytes = 0 ∧
      fileOf smallFs greeting 2 = some (2, some [72, 105]) ∧
      fileOf smallFs srv' 2 = some (0, some []) ∧
      fileOf smallFs srv' 2 ≠ fileOf smallFs greeting 2 := by
  have hrun : (fsReadwrite fullDevice smallFs (fun _ _ => OK) greeting zeros 2
      { rwFlag := .writing, position := 0, nbytes := 40 }).map
        (fun x => (x.1, fileOf smallFs x.2.1 2)) =
          some ((⟨ENOSPC, 0, 0⟩ : Reply), some ((0 : Nat), some [])) := by decide +kernel
  rcases Option.map_eq_some_iff.1 hrun with ⟨⟨reply, srv', user'⟩, hsome, hafter⟩
  rcases Prod.mk.inj hafter with ⟨rfl, hfile⟩
  have hbefore : fileOf smallFs greeting 2 = some (2, some [72, 105]) := by decide +kernel
  refine ⟨_, srv', user', hsome, rfl, rfl, hbefore, hfile, ?_⟩
  have hafter : fileOf smallFs srv' 2 = some (0, some []) := hfile
  rw [hafter, hbefore]
  decide

end Mfs
end OsLab
