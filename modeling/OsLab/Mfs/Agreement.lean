import OsLab.Mfs.Read

/-!
# Agreement — reads of immediate files against reads of regular files

A regular file delivers the bytes asked for, at every position and for every size, so any way of
splitting a sequential read gives the content.  An immediate file does so for some requests only,
and a sequential read of it gives the content for every split only when it has at most one byte.
-/

namespace OsLab
namespace Mfs

open OsLab.Lib

/-- Read a file with requests of the given sizes, each where the one before has ended, and put the
bytes delivered together.  `grantOf n` is the grant of a buffer of `n` bytes. -/
def readSequence (env : Env) (sb : SuperBlock) (grantOf : Nat → Grant) (user : Bytes) (ino : Nat) :
    Server → Int → List Nat → Option (List UInt8)
  | _, _, [] => some []
  | srv, pos, n :: ns =>
      match fsReadwrite env sb (grantOf n) srv user ino
          { rwFlag := .reading, position := pos, nbytes := n } with
      | none => none
      | some (reply, srv', user') =>
          if reply.r = OK then
            (readSequence env sb grantOf user ino srv' reply.seekPos ns).map fun rest =>
              prefixBytes user' reply.nbytes ++ rest
          else none

/-- The bytes that a list of requests asks for. -/
def totalBytes (ns : List Nat) : Nat :=
  ns.foldr (fun n total => n + total) 0

section Agreement

variable {env : Env} {sb : SuperBlock} {grantOf : Nat → Grant} {srv : Server} {user : Bytes}
variable {ino : Nat} {rip : Inode} {content : List UInt8} {pos n : Nat}

/-- Adjacent parts of a list. -/
theorem take_drop_append (content : List UInt8) (pos n m : Nat) :
    (content.drop pos).take n ++
        (content.drop (pos + ((content.drop pos).take n).length)).take m =
      (content.drop pos).take (n + m) := by
  rw [List.take_add]
  congr 1
  rw [List.drop_drop]
  by_cases hle : n ≤ (content.drop pos).length
  · rw [List.length_take, Nat.min_eq_left hle]
  · -- Nothing is left behind either end.
    have hlen : (content.drop pos).length = content.length - pos := List.length_drop
    have hend : content.length ≤ pos + n := by omega
    have hend' : content.length ≤ pos + ((content.drop pos).take n).length := by
      rw [List.length_take, Nat.min_eq_right (Nat.le_of_not_le hle)]
      omega
    rw [List.drop_eq_nil_of_le hend, List.drop_eq_nil_of_le hend']

/-- Requests that deliver what they ask for give the content in order. -/
theorem readSequence_eq {ns : List Nat}
    (h : ∀ pos n, n ∈ ns → DeliversSlice env sb (grantOf n) srv user ino content pos n) (pos : Nat) :
    readSequence env sb grantOf user ino srv (pos : Int) ns =
      some ((content.drop pos).take (totalBytes ns)) := by
  induction ns generalizing pos with
  | nil => simp [readSequence, totalBytes]
  | cons n ns ih =>
      rcases h pos n List.mem_cons_self with ⟨reply, srv', user', hread, hreply, hbytes, _⟩
      have hsrv : srv' = srv := fsReadwrite_reading rfl hread
      subst hsrv
      have hrest := ih (fun pos' m hm => h pos' m (List.mem_cons_of_mem n hm))
        (pos + ((content.drop pos).take n).length)
      simp only [readRequest] at hread
      simp only [readSequence, hread, hreply, if_true, hrest, hbytes, Option.map_some]
      rw [take_drop_append]
      rfl

theorem deliversSlice_of_some {grant : Grant} (hrip : srv.inodes ino = some rip) :
    DeliversSlice env sb grant srv user ino content pos n ↔
      ∃ reply w', readwriteInode env sb grant ⟨srv.core rip, user⟩ (readRequest pos n) =
        some (reply, w') ∧ SliceRead content pos n user w'.user reply := by
  simp only [DeliversSlice, fsReadwrite, hrip]
  constructor
  · rintro ⟨reply, srv', user', hread, hslice⟩
    rcases Option.map_eq_some_iff.1 hread with ⟨⟨reply', w'⟩, hrw, hend⟩
    simp only [Prod.mk.injEq] at hend
    rcases hend with ⟨rfl, _, rfl⟩
    exact ⟨reply', w', hrw, hslice⟩
  · rintro ⟨reply, w', hrw, hslice⟩
    exact ⟨reply, _, w'.user, congrArg (Option.map _) hrw, hslice⟩

/-- A read request to the server. -/
theorem fsReadwrite_read {grant : Grant} {req : Request} {reply : Reply} {w' : World}
    (hrip : srv.inodes ino = some rip) (hreq : req.rwFlag = .reading)
    (h : readwriteInode env sb grant ⟨srv.core rip, user⟩ req = some (reply, w')) :
    fsReadwrite env sb grant srv user ino req = some (reply, srv, w'.user) := by
  have hresult : ∃ srv', fsReadwrite env sb grant srv user ino req = some (reply, srv', w'.user) := by
    simp only [fsReadwrite, hrip]
    exact ⟨_, congrArg (Option.map _) h⟩
  rcases hresult with ⟨srv', hresult⟩
  rw [hresult, fsReadwrite_reading hreq hresult]

theorem immediate_delivers_iff {grant : Grant} (hgrant : Covers grant n)
    (hrip : srv.inodes ino = some rip) (htype : rip.type = I_IMMEDIATE) (hsize : rip.i_size ≤ 32)
    (hn : 1 ≤ n) :
    DeliversSlice env sb grant srv user ino (prefixBytes rip.i_zone rip.i_size) pos n ↔
      ImmediateReadOk sb (srv.core rip) pos n :=
  (deliversSlice_of_some hrip).trans
    (immediate_reads_iff (w := ⟨srv.core rip, user⟩) hgrant htype hsize hn)

theorem regular_delivers {grant : Grant} (hscale : sb.s_log_zone_size = 0) (hgrant : Covers grant n)
    (hrip : srv.inodes ino = some rip) (htype : rip.type = I_REGULAR)
    (hstores : Stores sb (srv.core rip) content) (hsize : rip.i_size < 2 ^ 31) (hn : 1 ≤ n) :
    DeliversSlice env sb grant srv user ino content pos n := by
  rcases hstores with ⟨file, hfile, rfl⟩
  apply (deliversSlice_of_some hrip).2
  exact regular_reads (w := ⟨srv.core rip, user⟩) hscale hgrant htype hfile hsize hn

/-- With at most one byte every request is right. -/
theorem immediateReadOk_of_le_one {c : Core} (hsize : c.rip.i_size ≤ 1) (hn : 1 ≤ n) :
    ImmediateReadOk sb c pos n := by
  by_cases hpos : pos = 0
  · exact .inr (.inl ⟨hpos, by omega⟩)
  · exact .inl (by omega)

/-- The first byte of a longer file, asked for alone, is answered with some byte. -/
theorem immediate_first_byte {grant : Grant} (hgrant : Covers grant 1) {w : World}
    (htype : w.core.rip.type = I_IMMEDIATE) (hsize : w.core.rip.i_size ≤ 32)
    (hlong : 1 < w.core.rip.i_size) :
    ∃ w', readwriteInode env sb grant w (readRequest 0 1) =
      some ({ r := OK, seekPos := 1, nbytes := 1 }, w') := by
  have hnot : w.core.rip.type ≠ I_BLOCK_SPECIAL := by rw [htype]; decide
  have hone : min 1 (w.core.rip.i_size - 0) = 1 := by omega
  -- `read_map` finds a block for position 0, so one byte is delivered, right or wrong.
  have hread : ∃ x, blockByte sb w.core 0 = some x := by
    have hpos := sb.ndzones_pos
    simp [blockByte, readMap, hpos]
  rcases hread with ⟨x, hread⟩
  have hbytes : ∀ p, 0 ≤ p → p < 0 + 1 → p < w.core.rip.i_size →
      blockByte sb w.core p = some ((fun _ => x) p) := by
    intro p _ hp _
    have hzero : p = 0 := by omega
    rw [hzero]
    exact hread
  have hloop : ∃ reply w', transfer env sb grant .reading sb.s_block_size (w.core.rip.i_size : Int)
      true
      { r := grant 0 w.core.rip.i_size, world := w, position := ((0 : Nat) : Int), nrbytes := 1,
        cumIo := 0 } = some (reply, w') ∧
      SliceRead (prefixBytes (fun _ => x) w.core.rip.i_size) 0 1 w.user w'.user reply :=
    (transfer_reads_iff hgrant hnot (by omega) (Nat.le_refl 1) (.inr (by omega))).2 hbytes
  rcases hloop with ⟨reply, w', htransfer, hslice⟩
  have hreply := (sliceRead_iff.1 hslice).1
  rw [hone] at hreply
  refine ⟨w', ?_⟩
  rw [immediate_refused hgrant htype hsize (by omega) hlong, htransfer, hreply]
  rfl

/-- The split `1, i_size` delivers a byte more than there are. -/
theorem readSequence_too_long (hgrant : ∀ n, Covers (grantOf n) n)
    (hrip : srv.inodes ino = some rip) (htype : rip.type = I_IMMEDIATE) (hsize : rip.i_size ≤ 32)
    (hlong : 1 < rip.i_size) :
    ∃ x, readSequence env sb grantOf user ino srv 0 [1, rip.i_size] =
      some (x :: prefixBytes rip.i_zone rip.i_size) := by
  have hfirst : ∃ w', readwriteInode env sb (grantOf 1) ⟨srv.core rip, user⟩ (readRequest 0 1) =
      some ({ r := OK, seekPos := 1, nbytes := 1 }, w') :=
    immediate_first_byte (hgrant 1) htype hsize hlong
  rcases hfirst with ⟨w', hfirst⟩
  have hread₁ := fsReadwrite_read hrip rfl hfirst
  have hsecond : readwriteInode env sb (grantOf rip.i_size) ⟨srv.core rip, user⟩
      (readRequest 1 rip.i_size) = _ :=
    immediate_whole (hgrant rip.i_size) htype hsize hlong (Nat.le_refl _)
  have hread₂ := fsReadwrite_read hrip rfl hsecond
  refine ⟨w'.user 0, ?_⟩
  have hwhole : prefixBytes (copyBytes user 0 rip.i_zone 0 rip.i_size) rip.i_size =
      prefixBytes rip.i_zone rip.i_size := by
    apply prefixBytes_congr
    intro i hi
    simp [copyBytes, hi]
  simp only [readRequest] at hread₁ hread₂
  have hone : prefixBytes w'.user 1 = [w'.user 0] := rfl
  simp only [Int.natCast_zero, Int.natCast_one] at hread₁ hread₂
  simpa [readSequence, hread₁, hread₂, hone, Server.core] using hwhole

end Agreement

/-- Reads of an immediate file agree with reads of a regular file of the same content under
`ImmediateReadOk` and in no other case, and for every split of a sequential read only when there is
at most one byte. -/
theorem immediate_read_agreement {env : Env} {sb : SuperBlock} {grantOf : Nat → Grant}
    {srv : Server} {user : Bytes} {ino : Nat} {rip : Inode}
    (hgrant : ∀ n, Covers (grantOf n) n) (hrip : srv.inodes ino = some rip)
    (htype : rip.type = I_IMMEDIATE) (hsize : rip.i_size ≤ 32) :
    (∀ pos n, 1 ≤ n →
      (DeliversSlice env sb (grantOf n) srv user ino (prefixBytes rip.i_zone rip.i_size) pos n ↔
        ImmediateReadOk sb (srv.core rip) pos n)) ∧
    ((∀ ns : List Nat, (∀ n, n ∈ ns → 1 ≤ n) →
        readSequence env sb grantOf user ino srv 0 ns =
          some ((prefixBytes rip.i_zone rip.i_size).take (totalBytes ns))) ↔
      rip.i_size ≤ 1) ∧
    (sb.s_log_zone_size = 0 → ∀ (srv' : Server) (ino' : Nat) (rip' : Inode),
      srv'.inodes ino' = some rip' → rip'.type = I_REGULAR →
        Stores sb (srv'.core rip') (prefixBytes rip.i_zone rip.i_size) →
          ∀ pos n, 1 ≤ n →
            DeliversSlice env sb (grantOf n) srv' user ino' (prefixBytes rip.i_zone rip.i_size)
              pos n) := by
  refine ⟨?_, ?_, ?_⟩
  · intro pos n hn
    exact immediate_delivers_iff (hgrant n) hrip htype hsize hn
  · constructor
    · intro hall
      by_contra hlong
      rcases readSequence_too_long hgrant hrip htype hsize (Nat.lt_of_not_le hlong) with ⟨x, hseq⟩
      have hsplit := hall [1, rip.i_size] (by simp; omega)
      rw [hseq] at hsplit
      -- The content has `i_size` bytes, and one more was delivered.
      have hlength := congrArg List.length (Option.some.inj hsplit)
      rw [List.length_cons, List.length_take, length_prefixBytes] at hlength
      omega
    · intro hshort ns hns
      have hdelivers : ∀ pos n, n ∈ ns →
          DeliversSlice env sb (grantOf n) srv user ino (prefixBytes rip.i_zone rip.i_size) pos n := by
        intro pos n hn
        apply (immediate_delivers_iff (hgrant n) hrip htype hsize (hns n hn)).2
        exact immediateReadOk_of_le_one hshort (hns n hn)
      exact readSequence_eq hdelivers 0
  · intro hscale srv' ino' rip' hrip' htype' hstores pos n hn
    refine regular_delivers hscale (hgrant n) hrip' htype' hstores ?_ hn
    rcases hstores with ⟨file, _, hcontent⟩
    have hlength := congrArg List.length hcontent
    rw [length_prefixBytes, length_prefixBytes] at hlength
    have hsame : rip'.i_size = rip.i_size := hlength
    omega

/-- The grant of a buffer of `n` bytes. -/
def exactGrant (n : Nat) : Grant :=
  fun off len => if off + len ≤ n then OK else EPERM

theorem exactGrant_covers (n : Nat) : Covers (exactGrant n) n := by
  intro off len
  by_cases hle : off + len ≤ n
  · simp [exactGrant, hle]
  · simp [exactGrant, hle, EPERM, OK]

/-- An immediate file of two bytes. -/
def twoByteInode : Inode :=
  { i_mode := 0o110644
    i_size := 2
    i_zone := fun i => if i = 0 then 65 else if i = 1 then 66 else 0
    i_zsearch := 0 }

def twoByteServer : Server :=
  { inodes := fun ino => if ino = 2 then some twoByteInode else none
    disk := fun _ _ => zeros
    used := fun _ => false }

/-- From the start the two bytes are read, at the second one they are read again. -/
theorem immediate_read_agreement_twoBytes :
    DeliversSlice firstFit smallFs (exactGrant 5) twoByteServer zeros 2
        (prefixBytes twoByteInode.i_zone twoByteInode.i_size) 0 5 ∧
      ¬ DeliversSlice firstFit smallFs (exactGrant 2) twoByteServer zeros 2
        (prefixBytes twoByteInode.i_zone twoByteInode.i_size) 1 2 := by
  have htype : twoByteInode.type = I_IMMEDIATE := by decide
  have hsize : twoByteInode.i_size ≤ 32 := by decide
  have hreads : ∀ pos n, 1 ≤ n →
      (DeliversSlice firstFit smallFs (exactGrant n) twoByteServer zeros 2
          (prefixBytes twoByteInode.i_zone twoByteInode.i_size) pos n ↔
        ImmediateReadOk smallFs (twoByteServer.core twoByteInode) pos n) :=
    (immediate_read_agreement exactGrant_covers rfl htype hsize).1
  constructor
  · exact (hreads 0 5 (by decide)).2 (.inr (.inl ⟨rfl, by decide⟩))
  · intro hread
    rcases (hreads 1 2 (by decide)).1 hread with hle | ⟨hzero, _⟩ | ⟨hlt, _⟩
    · exact absurd hle (by decide)
    · exact absurd hzero (by decide)
    · exact absurd hlt (by decide)

/-- A read of five bytes at position 1 of a file of two bytes: one byte is asked for in effect, and
two are delivered, the first of which is not the one at position 1. -/
theorem offsetRead_repeats :
    ¬ DeliversSlice firstFit smallFs (exactGrant 5) twoByteServer zeros 2
      (prefixBytes twoByteInode.i_zone twoByteInode.i_size) 1 5 := by
  rintro ⟨reply, srv', user', hread, hreply, _⟩
  have hcode : (fsReadwrite firstFit smallFs (exactGrant 5) twoByteServer zeros 2
      (readRequest 1 5)).map (fun out => out.1) =
        some { r := OK, seekPos := 3, nbytes := 2 } := by
    decide +kernel
  rw [hread] at hcode
  have hcount : reply.nbytes = 2 := congrArg Reply.nbytes (Option.some.inj hcode)
  rw [hreply] at hcount
  exact absurd hcount (by decide)

end Mfs
end OsLab
