import OsLab.Mfs.Storage

/-!
# Read — reading immediate and regular files

The chunk loop of `fs_readwrite` delivers the bytes that `read_map` leads to (`blockByte`), so a
regular file is read correctly at every position.  The immediate path copies the whole data area,
whatever position was asked for; and when the caller's buffer is too small for that, the request
falls through to the chunk loop, which takes the first bytes of the content for zone numbers.
-/

namespace OsLab
namespace Mfs

open OsLab.Lib

/-- The kernel copies to a grant of `nbytes` bytes and refuses what reaches beyond it. -/
def Covers (grant : Grant) (nbytes : Nat) : Prop :=
  ∀ off len, grant off len = OK ↔ off + len ≤ nbytes

/-! ## The chunk loop -/

/-- The chunk loop after `cumIo` bytes of a read at `pos`; the file has `size` bytes. -/
structure Reading (sb : SuperBlock) (w : World) (pos n size : Nat) (s : LoopState) : Prop where
  total : s.cumIo + s.nrbytes = n
  position : s.position = ((pos + s.cumIo : Nat) : Int)
  inside : s.cumIo = 0 ∨ pos + s.cumIo ≤ size
  core : s.world.core = w.core
  bytes : ∀ i, i < s.cumIo → blockByte sb w.core (pos + i) = some (s.world.user i)
  rest : ∀ i, s.cumIo ≤ i → s.world.user i = w.user i
  -- The immediate path may have left an error that the first chunk overwrites.
  r : s.r = OK ∨ s.cumIo = 0 ∧ pos < size

section ChunkLoop

variable {env : Env} {sb : SuperBlock} {grant : Grant} {w w' : World} {pos n size : Nat}
variable {s s' : LoopState}

/-- One chunk read from a file. -/
theorem rwChunk_reading {position off chunk bufOff blockSize : Nat}
    (htype : w.core.rip.type ≠ I_BLOCK_SPECIAL) (hgrant : grant bufOff chunk = OK) :
    rwChunk env sb grant w position off chunk .reading bufOff blockSize =
      (readMap sb w.core position).map fun b =>
        (OK,
          { w with
            user :=
              if b = NO_BLOCK then copyBytes w.user bufOff zeros 0 chunk
              else copyBytes w.user bufOff (w.core.disk sb.s_dev b) off chunk }) := by
  have hspec : (w.core.rip.type == I_BLOCK_SPECIAL) = false := by simpa using htype
  simp only [rwChunk, hspec, Bool.false_eq_true, if_false, true_and]
  cases hread : readMap sb w.core position with
  | none => rfl
  | some b =>
      by_cases hb : b = NO_BLOCK
      · simp [hb, copyTo, hgrant]
      · simp [hb, copyTo, hgrant]

/-- `read_map` only depends on the block. -/
theorem readMap_congr {c : Core} {p q : Nat} (h : p / sb.s_block_size = q / sb.s_block_size) :
    readMap sb c p = readMap sb c q := by
  simp only [readMap, h]

/-- The bytes of one chunk are the bytes of the file. -/
theorem blockByte_of_chunk {c : Core} {position chunk i b : Nat}
    (hfit : position % sb.s_block_size + chunk ≤ sb.s_block_size) (hi : i < chunk)
    (hread : readMap sb c position = some b) :
    blockByte sb c (position + i) =
      some (if b = NO_BLOCK then 0
        else c.disk sb.s_dev b (position % sb.s_block_size + i)) := by
  have hdiv : (position + i) / sb.s_block_size = position / sb.s_block_size :=
    div_eq_of_chunk hfit (Nat.le_add_right _ _) (Nat.add_lt_add_left hi _)
  have hmod : (position + i) % sb.s_block_size = position % sb.s_block_size + i := by
    have hposdiv := Nat.div_add_mod position sb.s_block_size
    have hidiv := Nat.div_add_mod (position + i) sb.s_block_size
    rw [hdiv] at hidiv
    omega
  rw [blockByte, readMap_congr hdiv, hread, hmod]
  rfl

/-- The next chunk of a read. -/
def readChunk (sb : SuperBlock) (pos size : Nat) (s : LoopState) : Nat :=
  min (min s.nrbytes (sb.s_block_size - (pos + s.cumIo) % sb.s_block_size))
    (size - (pos + s.cumIo))

variable (env) in
/-- The next turn of a read in front of the end of the file. -/
theorem Reading.step_eq (h : Reading sb w pos n size s) (hgrant : Covers grant n)
    (htype : w.core.rip.type ≠ I_BLOCK_SPECIAL) (hsize : size < 2 ^ 31) (hmore : s.nrbytes ≠ 0)
    (hin : pos + s.cumIo < size) :
    chunkStep env sb grant .reading sb.s_block_size (size : Int) s =
      (readMap sb w.core (pos + s.cumIo)).map fun b =>
        .inl
          { r := OK
            world :=
              { s.world with
                user :=
                  if b = NO_BLOCK then
                    copyBytes s.world.user s.cumIo zeros 0 (readChunk sb pos size s)
                  else
                    copyBytes s.world.user s.cumIo (w.core.disk sb.s_dev b)
                      ((pos + s.cumIo) % sb.s_block_size) (readChunk sb pos size s) }
            position := s.position + (readChunk sb pos size s : Nat)
            nrbytes := s.nrbytes - readChunk sb pos size s
            cumIo := s.cumIo + readChunk sb pos size s } := by
  have htotal := h.total
  have hpos : toUnsigned s.position = pos + s.cumIo := by
    rw [h.position]
    exact toUnsigned_natCast (by omega)
  have hbefore : ¬ (size : Int) ≤ s.position := by
    rw [h.position]
    omega
  have hleft : toUnsigned ((size : Int) - s.position) = size - (pos + s.cumIo) := by
    have hcast : (size : Int) - s.position = ((size - (pos + s.cumIo) : Nat) : Int) := by
      rw [h.position]
      omega
    rw [hcast]
    exact toUnsigned_natCast (by omega)
  have hchunk : (if size - (pos + s.cumIo) <
      min s.nrbytes (sb.s_block_size - (pos + s.cumIo) % sb.s_block_size) then
        size - (pos + s.cumIo)
      else min s.nrbytes (sb.s_block_size - (pos + s.cumIo) % sb.s_block_size)) =
        readChunk sb pos size s := by
    rw [readChunk, Nat.min_comm _ (size - (pos + s.cumIo)), Nat.min_def]
    split <;> split <;> omega
  have hgrant' : grant s.cumIo (readChunk sb pos size s) = OK := by
    apply (hgrant _ _).2
    simp only [readChunk]
    omega
  simp only [chunkStep, hmore, if_false, hbefore, and_false, hpos, hleft, true_and, hchunk]
  rw [rwChunk_reading (by rw [h.core]; exact htype) hgrant', h.core]
  cases readMap sb w.core (pos + s.cumIo) with
  | none => rfl
  | some b => simp

/-- The state after a chunk that was read from the block `b`. -/
theorem Reading.advance (h : Reading sb w pos n size s) (hmore : s.nrbytes ≠ 0)
    (hin : pos + s.cumIo < size) {b : Nat} (hread : readMap sb w.core (pos + s.cumIo) = some b)
    (hs' : s' =
      { r := OK
        world :=
          { s.world with
            user :=
              if b = NO_BLOCK then copyBytes s.world.user s.cumIo zeros 0 (readChunk sb pos size s)
              else
                copyBytes s.world.user s.cumIo (w.core.disk sb.s_dev b)
                  ((pos + s.cumIo) % sb.s_block_size) (readChunk sb pos size s) }
        position := s.position + (readChunk sb pos size s : Nat)
        nrbytes := s.nrbytes - readChunk sb pos size s
        cumIo := s.cumIo + readChunk sb pos size s }) :
    Reading sb w pos n size s' ∧ s'.nrbytes < s.nrbytes := by
  have htotal := h.total
  have hmod := Nat.mod_lt (pos + s.cumIo) sb.block_size_pos
  have hpositive : 0 < readChunk sb pos size s := by
    simp only [readChunk]
    omega
  have hle : readChunk sb pos size s ≤ s.nrbytes := by
    simp only [readChunk]
    omega
  have hfit : (pos + s.cumIo) % sb.s_block_size + readChunk sb pos size s ≤ sb.s_block_size := by
    simp only [readChunk]
    omega
  have hend : pos + s.cumIo + readChunk sb pos size s ≤ size := by
    simp only [readChunk]
    omega
  generalize readChunk sb pos size s = chunk at hs' hpositive hle hfit hend
  subst hs'
  have huser : ∀ i, (if b = NO_BLOCK then copyBytes s.world.user s.cumIo zeros 0 chunk
      else copyBytes s.world.user s.cumIo (w.core.disk sb.s_dev b)
        ((pos + s.cumIo) % sb.s_block_size) chunk) i =
      if s.cumIo ≤ i ∧ i < s.cumIo + chunk then
        if b = NO_BLOCK then 0
        else w.core.disk sb.s_dev b ((pos + s.cumIo) % sb.s_block_size + (i - s.cumIo))
      else s.world.user i := by
    intro i
    by_cases hb : b = NO_BLOCK
    · simp [hb, copyBytes, zeros]
    · simp [hb, copyBytes]
  refine ⟨⟨?_, ?_, .inr (by simpa [Nat.add_assoc] using hend), h.core, ?_, ?_, .inl rfl⟩, ?_⟩
  · show s.cumIo + chunk + (s.nrbytes - chunk) = n
    omega
  · show s.position + (chunk : Int) = ((pos + (s.cumIo + chunk) : Nat) : Int)
    rw [h.position]
    omega
  · intro i hi
    have hi' : i < s.cumIo + chunk := hi
    simp only [huser]
    by_cases hold : i < s.cumIo
    · rw [if_neg (fun hnew => absurd hold (Nat.not_lt_of_ge hnew.1))]
      exact h.bytes i hold
    · have hge : s.cumIo ≤ i := Nat.le_of_not_lt hold
      have hbyte := blockByte_of_chunk (i := i - s.cumIo) hfit (by omega) hread
      have hidx : pos + s.cumIo + (i - s.cumIo) = pos + i := by omega
      rw [hidx] at hbyte
      rw [if_pos ⟨hge, hi'⟩]
      exact hbyte
  · intro i hi
    have hi' : s.cumIo + chunk ≤ i := hi
    simp only [huser]
    rw [if_neg (fun hnew => absurd hnew.2 (Nat.not_lt_of_ge hi'))]
    exact h.rest i (by omega)
  · show s.nrbytes - chunk < s.nrbytes
    omega

variable (env) in
/-- What one turn of the loop can do. -/
theorem Reading.turn (h : Reading sb w pos n size s) (hgrant : Covers grant n)
    (htype : w.core.rip.type ≠ I_BLOCK_SPECIAL) (hsize : size < 2 ^ 31) :
    (chunkStep env sb grant .reading sb.s_block_size (size : Int) s = some (.inr s) ∧
        (s.nrbytes = 0 ∨ size ≤ pos + s.cumIo)) ∨
      (∃ s', chunkStep env sb grant .reading sb.s_block_size (size : Int) s = some (.inl s') ∧
        Reading sb w pos n size s' ∧ s'.nrbytes < s.nrbytes) ∨
      (chunkStep env sb grant .reading sb.s_block_size (size : Int) s = none ∧
        ∃ p, pos ≤ p ∧ p < pos + n ∧ p < size ∧ blockByte sb w.core p = none) := by
  have htotal := h.total
  by_cases hmore : s.nrbytes = 0
  · exact .inl ⟨by simp [chunkStep, hmore], .inl hmore⟩
  · by_cases hin : pos + s.cumIo < size
    · have hstep := h.step_eq env hgrant htype hsize hmore hin
      cases hread : readMap sb w.core (pos + s.cumIo) with
      | none =>
          rw [hread] at hstep
          refine .inr (.inr ⟨hstep, pos + s.cumIo, by omega, by omega, hin, ?_⟩)
          simp [blockByte, hread]
      | some b =>
          rw [hread] at hstep
          exact .inr (.inl ⟨_, hstep, h.advance hmore hin hread rfl⟩)
    · refine .inl ⟨?_, .inr (Nat.le_of_not_lt hin)⟩
      have hbehind : (size : Int) ≤ s.position := by
        rw [h.position]
        omega
      simp [chunkStep, hmore, hbehind]

/-- The chunk loop has delivered what there is. -/
theorem Reading.finished (h : Reading sb w pos n size s) (hn : 1 ≤ n)
    (hdone : s.nrbytes = 0 ∨ size ≤ pos + s.cumIo) : s.r = OK ∧ s.cumIo = min n (size - pos) := by
  have htotal := h.total
  have hcum : s.cumIo = min n (size - pos) := by
    rcases h.inside with hzero | hle
    · omega
    · omega
  refine ⟨?_, hcum⟩
  rcases h.r with hr | ⟨hzero, hlt⟩
  · exact hr
  · -- Nothing was read although there was something to read.
    omega

theorem chunkLoop_reads (hgrant : Covers grant n) (htype : w.core.rip.type ≠ I_BLOCK_SPECIAL)
    (hsize : size < 2 ^ 31) (hn : 1 ≤ n) (h : Reading sb w pos n size s)
    (hloop : chunkLoop env sb grant .reading sb.s_block_size (size : Int) s = some s') :
    Reading sb w pos n size s' ∧ s'.r = OK ∧ s'.cumIo = min n (size - pos) := by
  refine loop_partial (Reading sb w pos n size)
    (fun s' => Reading sb w pos n size s' ∧ s'.r = OK ∧ s'.cumIo = min n (size - pos)) ?_ ?_ _ _ _
    h hloop
  · intro s₁ s₂ h₁ hstep
    rcases h₁.turn env hgrant htype hsize with ⟨hexit, _⟩ | ⟨s₃, hagain, h₃, _⟩ | ⟨hnone, _⟩
    · rw [hexit] at hstep
      cases hstep
    · rw [hagain] at hstep
      cases hstep
      exact h₃
    · rw [hnone] at hstep
      cases hstep
  · intro s₁ s₂ h₁ hstep
    rcases h₁.turn env hgrant htype hsize with ⟨hexit, hdone⟩ | ⟨s₃, hagain, _⟩ | ⟨hnone, _⟩
    · rw [hexit] at hstep
      cases hstep
      exact ⟨h₁, h₁.finished hn hdone⟩
    · rw [hagain] at hstep
      cases hstep
    · rw [hnone] at hstep
      cases hstep

variable (env) in
/-- The loop returns when `read_map` fails nowhere in the range. -/
theorem chunkLoop_returns (hgrant : Covers grant n) (htype : w.core.rip.type ≠ I_BLOCK_SPECIAL)
    (hsize : size < 2 ^ 31) (h : Reading sb w pos n size s)
    (hmap : ∀ p, pos ≤ p → p < pos + n → p < size → blockByte sb w.core p ≠ none) :
    ∃ s', chunkLoop env sb grant .reading sb.s_block_size (size : Int) s = some s' := by
  have hturn : ∀ s₁, Reading sb w pos n size s₁ →
      (∃ s₂, chunkStep env sb grant .reading sb.s_block_size (size : Int) s₁ = some (.inl s₂) ∧
        Reading sb w pos n size s₂ ∧ s₂.nrbytes < s₁.nrbytes) ∨
      (∃ s₂, chunkStep env sb grant .reading sb.s_block_size (size : Int) s₁ = some (.inr s₂) ∧
        True) := by
    intro s₁ h₁
    rcases h₁.turn env hgrant htype hsize with
      ⟨hexit, _⟩ | hagain | ⟨_, p, hle, hlt, hin, hnone⟩
    · exact .inr ⟨s₁, hexit, trivial⟩
    · exact .inl hagain
    · exact absurd hnone (hmap p hle hlt hin)
  rcases loop_total (Reading sb w pos n size) (fun s => s.nrbytes) (fun _ => True) hturn
    (s.nrbytes + 1) s h (Nat.lt_succ_self _) with ⟨s', hloop, _⟩
  exact ⟨s', hloop⟩

end ChunkLoop

/-! ## Read requests -/

def readRequest (pos n : Nat) : Request :=
  { rwFlag := .reading, position := (pos : Int), nbytes := n }

/-- The answer to a read of `content[pos, min (pos + n) length)`: these bytes are at the start of the
caller's memory, the rest of it is unchanged, and the reply counts them. -/
def SliceRead (content : List UInt8) (pos n : Nat) (user user' : Bytes) (reply : Reply) : Prop :=
  let slice := (content.drop pos).take n
  reply = { r := OK, seekPos := ((pos + slice.length : Nat) : Int), nbytes := slice.length } ∧
    prefixBytes user' slice.length = slice ∧ ∀ i, slice.length ≤ i → user' i = user i

/-- `fs_readwrite` delivers the bytes asked for. -/
def DeliversSlice (env : Env) (sb : SuperBlock) (grant : Grant) (srv : Server) (user : Bytes)
    (ino : Nat) (content : List UInt8) (pos n : Nat) : Prop :=
  ∃ reply srv' user',
    fsReadwrite env sb grant srv user ino (readRequest pos n) = some (reply, srv', user') ∧
      SliceRead content pos n user user' reply

section Requests

variable {env : Env} {sb : SuperBlock} {grant : Grant} {w w' : World} {pos n size : Nat}
variable {a user user' : Bytes} {reply : Reply}

theorem sliceRead_iff :
    SliceRead (prefixBytes a size) pos n user user' reply ↔
      reply =
          { r := OK
            seekPos := ((pos + min n (size - pos) : Nat) : Int)
            nbytes := min n (size - pos) } ∧
        (∀ i, i < min n (size - pos) → user' i = a (pos + i)) ∧
        ∀ i, min n (size - pos) ≤ i → user' i = user i := by
  simp only [SliceRead, slice_prefixBytes, length_prefixBytes, prefixBytes_eq_iff]

/-- A read that goes through the chunk loop is right if and only if the blocks hold the content. -/
theorem transfer_reads_iff (hgrant : Covers grant n) (htype : w.core.rip.type ≠ I_BLOCK_SPECIAL)
    (hsize : size < 2 ^ 31) (hn : 1 ≤ n) {growing : Bool} {r : Int} (hr : r = OK ∨ pos < size) :
    (∃ reply w', transfer env sb grant .reading sb.s_block_size (size : Int) growing
        { r := r, world := w, position := (pos : Int), nrbytes := n, cumIo := 0 } =
          some (reply, w') ∧ SliceRead (prefixBytes a size) pos n w.user w'.user reply) ↔
      ∀ p, pos ≤ p → p < pos + n → p < size → blockByte sb w.core p = some (a p) := by
  have hstart : Reading sb w pos n size
      { r := r, world := w, position := (pos : Int), nrbytes := n, cumIo := 0 } :=
    { total := Nat.zero_add n
      position := rfl
      inside := .inl rfl
      core := rfl
      bytes := fun i hi => absurd hi (Nat.not_lt_zero i)
      rest := fun _ _ => rfl
      r := hr.imp id fun hlt => ⟨rfl, hlt⟩ }
  constructor
  · rintro ⟨reply, w', htransfer, hslice⟩ p hle hlt hin
    rcases Option.map_eq_some_iff.1 htransfer with ⟨s, hloop, hend⟩
    simp only [Prod.mk.injEq] at hend
    rcases hend with ⟨rfl, rfl⟩
    rcases chunkLoop_reads hgrant htype hsize hn hstart hloop with ⟨h, _, hcum⟩
    have hbytes := (sliceRead_iff.1 hslice).2.1 (p - pos) (by omega)
    have hblock := h.bytes (p - pos) (by omega)
    have hidx : pos + (p - pos) = p := by omega
    rw [hidx] at hbytes hblock
    rw [hblock]
    exact congrArg some hbytes
  · intro hblocks
    have hmap : ∀ p, pos ≤ p → p < pos + n → p < size → blockByte sb w.core p ≠ none := by
      intro p hle hlt hin
      rw [hblocks p hle hlt hin]
      exact Option.some_ne_none _
    rcases chunkLoop_returns env hgrant htype hsize hstart hmap with ⟨s, hloop⟩
    rcases chunkLoop_reads hgrant htype hsize hn hstart hloop with ⟨h, hok, hcum⟩
    refine ⟨_, _, congrArg (Option.map _) hloop, sliceRead_iff.2 ⟨?_, ?_, ?_⟩⟩
    · rw [hok, h.position, hcum]
    · intro i hi
      have hblock := h.bytes i (by omega)
      rw [hblocks (pos + i) (by omega) (by omega) (by omega)] at hblock
      exact (Option.some.inj hblock).symm
    · intro i hi
      exact h.rest i (by omega)

/-- The checks of `fs_readwrite` concern writes only. -/
theorem checkWrite_reading (c : Core) (fSize : Int) (blockSpec : Bool) :
    checkWrite sb c (readRequest pos n) fSize blockSpec = some OK := by
  simp [checkWrite, readRequest]

/-- A read of an immediate file in front of its end is left to the immediate path. -/
theorem readwriteInode_immediate (htype : w.core.rip.type = I_IMMEDIATE)
    (hin : pos < w.core.rip.i_size) :
    readwriteInode env sb grant w (readRequest pos n) =
      (immediateTransfer grant .reading w.core.rip.i_size
        { r := OK, world := w, position := (pos : Int), nrbytes := n, cumIo := 0 }).bind
          (transfer env sb grant .reading sb.s_block_size (w.core.rip.i_size : Int) true) := by
  have hspec : (I_IMMEDIATE == I_BLOCK_SPECIAL) = false := by decide
  have hbefore : ¬ (w.core.rip.i_size : Int) ≤ (pos : Int) := by omega
  simp only [readwriteInode, htype, hspec, Bool.false_eq_true, if_false, checkWrite_reading,
    Option.bind_some, ne_eq, not_true, if_true, growing_immediate]
  simp only [readRequest, reduceCtorEq, if_false, hbefore]

/-- The whole content is delivered when it fits into the caller's buffer, wherever the read starts. -/
theorem immediate_whole (hgrant : Covers grant n) (htype : w.core.rip.type = I_IMMEDIATE)
    (hsize : w.core.rip.i_size ≤ 32) (hin : pos < w.core.rip.i_size)
    (hfits : w.core.rip.i_size ≤ n) :
    readwriteInode env sb grant w (readRequest pos n) =
      some
        ({ r := OK
           seekPos := (pos : Int) + (w.core.rip.i_size : Nat)
           nbytes := w.core.rip.i_size },
          { w with user := copyBytes w.user 0 w.core.rip.i_zone 0 w.core.rip.i_size }) := by
  have hbuffer : ¬ I_ZONE_BYTES < w.core.rip.i_size := by
    simp only [I_ZONE_BYTES]
    omega
  have hok : grant 0 w.core.rip.i_size = OK := (hgrant _ _).2 (by omega)
  rw [readwriteInode_immediate htype hin]
  simp [immediateTransfer, hbuffer, copyTo, hok, transfer, chunkLoop_done]

/-- Otherwise the kernel refuses the copy, and the request goes on in the chunk loop. -/
theorem immediate_refused (hgrant : Covers grant n) (htype : w.core.rip.type = I_IMMEDIATE)
    (hsize : w.core.rip.i_size ≤ 32) (hin : pos < w.core.rip.i_size)
    (hsmall : n < w.core.rip.i_size) :
    readwriteInode env sb grant w (readRequest pos n) =
      transfer env sb grant .reading sb.s_block_size (w.core.rip.i_size : Int) true
        { r := grant 0 w.core.rip.i_size
          world := w
          position := (pos : Int)
          nrbytes := n
          cumIo := 0 } := by
  have hbuffer : ¬ I_ZONE_BYTES < w.core.rip.i_size := by
    simp only [I_ZONE_BYTES]
    omega
  have hbad : grant 0 w.core.rip.i_size ≠ OK := by
    intro hok
    have hle := (hgrant _ _).1 hok
    omega
  rw [readwriteInode_immediate htype hin]
  simp [immediateTransfer, hbuffer, copyTo, hbad]

/-- Behind the end an immediate file is read like any other. -/
theorem immediate_behind (htype : w.core.rip.type = I_IMMEDIATE)
    (hbehind : w.core.rip.i_size ≤ pos) :
    readwriteInode env sb grant w (readRequest pos n) =
      transfer env sb grant .reading sb.s_block_size (w.core.rip.i_size : Int) true
        { r := OK, world := w, position := (pos : Int), nrbytes := n, cumIo := 0 } := by
  have hspec : (I_IMMEDIATE == I_BLOCK_SPECIAL) = false := by decide
  have hle : (w.core.rip.i_size : Int) ≤ (pos : Int) := by omega
  simp only [readwriteInode, htype, hspec, Bool.false_eq_true, if_false, checkWrite_reading,
    Option.bind_some, ne_eq, not_true, if_true, growing_immediate]
  simp only [readRequest, reduceCtorEq, if_false, hle, if_true]

/-- When a read of an immediate file is right: at or behind the end, or for the whole content, or
when the content is found once more in the block that its first word takes for a zone. -/
def ImmediateReadOk (sb : SuperBlock) (c : Core) (pos n : Nat) : Prop :=
  c.rip.i_size ≤ pos ∨ pos = 0 ∧ c.rip.i_size ≤ n ∨
    n < c.rip.i_size ∧
      ∀ p, pos ≤ p → p < pos + n → p < c.rip.i_size → blockByte sb c p = some (c.rip.i_zone p)

theorem immediate_reads_iff (hgrant : Covers grant n) (htype : w.core.rip.type = I_IMMEDIATE)
    (hsize : w.core.rip.i_size ≤ 32) (hn : 1 ≤ n) :
    (∃ reply w', readwriteInode env sb grant w (readRequest pos n) = some (reply, w') ∧
        SliceRead (prefixBytes w.core.rip.i_zone w.core.rip.i_size) pos n w.user w'.user reply) ↔
      ImmediateReadOk sb w.core pos n := by
  have hnot : w.core.rip.type ≠ I_BLOCK_SPECIAL := by rw [htype]; decide
  have hbound : w.core.rip.i_size < 2 ^ 31 := by omega
  by_cases hbehind : w.core.rip.i_size ≤ pos
  · -- The chunk loop is left at once.
    rw [immediate_behind htype hbehind]
    refine (transfer_reads_iff hgrant hnot hbound hn (.inl rfl)).trans (iff_of_true ?_ (.inl hbehind))
    intro p hle _ hin
    omega
  · have hin : pos < w.core.rip.i_size := Nat.lt_of_not_le hbehind
    by_cases hfits : w.core.rip.i_size ≤ n
    · simp only [immediate_whole hgrant htype hsize hin hfits, Option.some.injEq, Prod.mk.injEq]
      constructor
      · rintro ⟨reply, w', ⟨rfl, rfl⟩, hslice⟩
        have hcount := congrArg Reply.nbytes (sliceRead_iff.1 hslice).1
        have hcount' : w.core.rip.i_size = min n (w.core.rip.i_size - pos) := hcount
        exact .inr (.inl ⟨by omega, hfits⟩)
      · rintro (hle | ⟨rfl, _⟩ | ⟨hlt, _⟩)
        · exact absurd hle hbehind
        · have hcount : min n (w.core.rip.i_size - 0) = w.core.rip.i_size := by omega
          refine ⟨_, _, ⟨rfl, rfl⟩, sliceRead_iff.2 ?_⟩
          rw [hcount]
          refine ⟨by simp, ?_, ?_⟩
          · intro i hi
            simp [copyBytes, hi]
          · intro i hi
            simp [copyBytes, Nat.not_lt.2 hi]
        · exact absurd hfits (Nat.not_le_of_gt hlt)
    · have hsmall : n < w.core.rip.i_size := Nat.lt_of_not_le hfits
      rw [immediate_refused hgrant htype hsize hin hsmall]
      refine (transfer_reads_iff hgrant hnot hbound hn (.inr hin)).trans ?_
      constructor
      · exact fun h => .inr (.inr ⟨hsmall, h⟩)
      · rintro (hle | ⟨_, hle⟩ | ⟨_, h⟩)
        · exact absurd hle hbehind
        · exact absurd hle hfits
        · exact h

/-- A read of a regular file is right. -/
theorem regular_reads (hscale : sb.s_log_zone_size = 0) (hgrant : Covers grant n)
    (htype : w.core.rip.type = I_REGULAR) (h : Holds sb w.core a)
    (hsize : w.core.rip.i_size < 2 ^ 31) (hn : 1 ≤ n) :
    ∃ reply w', readwriteInode env sb grant w (readRequest pos n) = some (reply, w') ∧
      SliceRead (prefixBytes a w.core.rip.i_size) pos n w.user w'.user reply := by
  have hspec : (I_REGULAR == I_BLOCK_SPECIAL) = false := by decide
  have himm : ¬ I_REGULAR = I_IMMEDIATE := by decide
  have hnot : w.core.rip.type ≠ I_BLOCK_SPECIAL := by rw [htype]; decide
  simp only [readwriteInode, htype, hspec, Bool.false_eq_true, if_false, checkWrite_reading,
    Option.bind_some, ne_eq, not_true, himm]
  refine (transfer_reads_iff hgrant hnot hsize hn (.inl rfl)).2 ?_
  intro p _ _ hin
  exact h.blockByte_eq hscale htype hin

end Requests

/-! ## Reads change nothing -/

section Frame

variable {env : Env} {sb : SuperBlock} {grant : Grant} {w w' : World} {s s' : LoopState}

theorem copyTo_core {bufOff off chunk : Nat} {src : Bytes} {r : Int}
    (h : copyTo grant w bufOff src off chunk = (r, w')) : w'.core = w.core := by
  by_cases hgrant : grant bufOff chunk = OK
  · simp only [copyTo, hgrant, if_true, Prod.mk.injEq] at h
    rw [← h.2]
  · simp only [copyTo, hgrant, if_false, Prod.mk.injEq] at h
    rw [h.2]

theorem rwChunk_reading_core {position off chunk bufOff blockSize : Nat} {r : Int}
    (h : rwChunk env sb grant w position off chunk .reading bufOff blockSize = some (r, w')) :
    w'.core = w.core := by
  cases rwChunk_done h with
  | read src o hcopy => exact copyTo_core hcopy
  | failed hflag _ => exact absurd rfl hflag

theorem chunkLoop_reading_core {blockSize : Nat} {fSize : Int}
    (h : chunkLoop env sb grant .reading blockSize fSize s = some s') :
    s'.world.core = s.world.core := by
  refine loop_partial (fun s₁ => s₁.world.core = s.world.core)
    (fun s₁ => s₁.world.core = s.world.core) ?_ ?_ _ _ _ rfl h
  · intro s₁ s₂ hs₁ hstep
    rcases chunkStep_cases hstep with
      ⟨hout, _⟩ | ⟨chunk, r, world, _, hrw, ⟨_, hout⟩ | ⟨_, hout⟩⟩
    · cases hout
    · cases hout
    · cases hout
      exact (rwChunk_reading_core hrw).trans hs₁
  · intro s₁ s₂ hs₁ hstep
    rcases chunkStep_cases hstep with
      ⟨hout, _⟩ | ⟨chunk, r, world, _, hrw, ⟨_, hout⟩ | ⟨_, hout⟩⟩
    · cases hout
      exact hs₁
    · cases hout
      exact (rwChunk_reading_core hrw).trans hs₁
    · cases hout

theorem transfer_reading_core {blockSize : Nat} {fSize : Int} {growing : Bool} {reply : Reply}
    (h : transfer env sb grant .reading blockSize fSize growing s = some (reply, w')) :
    w'.core = s.world.core := by
  rcases Option.map_eq_some_iff.1 h with ⟨s', hloop, hend⟩
  simp only [reduceCtorEq, false_and, if_false, Prod.mk.injEq] at hend
  rw [← hend.2]
  exact chunkLoop_reading_core hloop

theorem immediateTransfer_reading_core {fSize : Nat}
    (h : immediateTransfer grant .reading fSize s = some s') : s'.world.core = s.world.core := by
  by_cases hbuffer : I_ZONE_BYTES < fSize
  · simp [immediateTransfer, hbuffer] at h
  · simp only [immediateTransfer, if_true, hbuffer, if_false] at h
    cases hcopy : copyTo grant s.world s.cumIo s.world.core.rip.i_zone 0 fSize with
    | mk r world =>
        rw [hcopy] at h
        by_cases hr : r = OK
        · simp only [hr, if_true, Option.some.injEq] at h
          rw [← h]
          exact copyTo_core hcopy
        · simp only [hr, if_false, Option.some.injEq] at h
          rw [← h]

/-- A read request changes neither the inode nor the blocks. -/
theorem readwriteInode_reading_core {req : Request} (hreq : req.rwFlag = .reading) {reply : Reply}
    (h : readwriteInode env sb grant w req = some (reply, w')) : w'.core = w.core := by
  simp only [readwriteInode] at h
  rcases Option.bind_eq_some_iff.1 h with ⟨r, _, hrest⟩
  simp only [hreq, reduceCtorEq, if_false] at hrest
  by_cases hr : r = OK
  · simp only [hr, ne_eq, not_true, if_false] at hrest
    by_cases himm : w.core.rip.type = I_IMMEDIATE
    · have hspec : (I_IMMEDIATE == I_BLOCK_SPECIAL) = false := by decide
      simp only [himm, if_true, hspec, Bool.false_eq_true, if_false] at hrest
      by_cases hbehind : (w.core.rip.i_size : Int) ≤ req.position
      · simp only [hbehind, if_true] at hrest
        exact transfer_reading_core hrest
      · simp only [hbehind, if_false] at hrest
        rcases Option.bind_eq_some_iff.1 hrest with ⟨s', hcopy, htransfer⟩
        exact (transfer_reading_core htransfer).trans (immediateTransfer_reading_core hcopy)
    · simp only [himm, if_false] at hrest
      exact transfer_reading_core hrest
  · simp only [ne_eq, hr, not_false_iff, if_true, Option.some.injEq, Prod.mk.injEq] at hrest
    rw [hrest.2]

theorem fsReadwrite_reading {srv srv' : Server} {user user' : Bytes} {ino : Nat} {req : Request}
    (hreq : req.rwFlag = .reading) {reply : Reply}
    (h : fsReadwrite env sb grant srv user ino req = some (reply, srv', user')) : srv' = srv := by
  cases hrip : srv.inodes ino with
  | none =>
      simp only [fsReadwrite, hrip, Option.some.injEq, Prod.mk.injEq] at h
      exact h.2.1.symm
  | some rip =>
      simp only [fsReadwrite, hrip] at h
      rcases Option.map_eq_some_iff.1 h with ⟨⟨reply', w'⟩, hrw, hend⟩
      simp only [Prod.mk.injEq] at hend
      rw [← hend.2.1, readwriteInode_reading_core hreq hrw]
      simp only [← hrip, Function.update_eq_self]

end Frame

end Mfs
end OsLab
