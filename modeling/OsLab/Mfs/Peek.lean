import OsLab.Mfs.Storage

/-!
# Peek — peeking at an immediate file

`REQ_PEEK` is to bring the data of a file into the cache without copying anything.  On an immediate
inode `fs_readwrite` only asks whether the request is a read: in front of the end of the file a peek
takes the branch of the inline write, and everything else goes to the chunk loop, where `read_map`
takes the inline bytes for zone numbers.  `harmless_peek_iff` says which peeks do no harm.
-/

namespace OsLab
namespace Mfs

open OsLab.Lib

/-- The variables of `fs_readwrite` when a peek at an immediate inode enters the chunk loop. -/
def peekEntry (grant : Grant) (w : World) (req : Request) : Option LoopState :=
  if (w.core.rip.i_size : Int) ≤ req.position then some (loopStart w req)
  else immediateTransfer grant .peeking w.core.rip.i_size (loopStart w req)

/-- One turn of the chunk loop of a peek that goes round again. -/
def PeekTurn (env : Env) (sb : SuperBlock) (grant : Grant) (fSize : Int) (s s' : LoopState) : Prop :=
  chunkStep env sb grant .peeking sb.s_block_size fSize s = some (.inl s')

/-- Some turn of the chunk loop asks `read_map` for a block while the inode is immediate.  A turn asks
as soon as there are bytes left (`chunkStep_asks`). -/
def AsksReadMap (env : Env) (sb : SuperBlock) (grant : Grant) (w : World) (req : Request) : Prop :=
  ∃ entry s, peekEntry grant w req = some entry ∧
    Relation.ReflTransGen (PeekTurn env sb grant (w.core.rip.i_size : Int)) entry s ∧
    s.nrbytes ≠ 0 ∧ s.world.core.rip.type = I_IMMEDIATE

/-- A peek that returns, leaves the inode and the zone bit map as they are, and does not take the
inline bytes for zone numbers. -/
structure HarmlessPeek (env : Env) (sb : SuperBlock) (grant : Grant) (srv : Server) (user : Bytes)
    (ino : Nat) (rip : Inode) (req : Request) : Prop where
  unchanged : ∃ reply srv' user' rip',
    fsReadwrite env sb grant srv user ino req = some (reply, srv', user') ∧
      srv'.inodes ino = some rip' ∧ rip'.i_zone = rip.i_zone ∧ rip'.i_size = rip.i_size ∧
      rip'.type = rip.type ∧ srv'.used = srv.used
  unread : ¬ AsksReadMap env sb grant { core := srv.core rip, user := user } req

section Peek

variable {env : Env} {sb : SuperBlock} {grant : Grant} {w w' : World} {req : Request}
variable {s : LoopState}

/-- A turn with bytes left depends on what `read_map` says. -/
theorem chunkStep_asks (hbytes : s.nrbytes ≠ 0) (htype : s.world.core.rip.type = I_IMMEDIATE)
    (fSize : Int) (hread : readMap sb s.world.core (toUnsigned s.position) = none) :
    chunkStep env sb grant .peeking sb.s_block_size fSize s = none := by
  have hspec : (I_IMMEDIATE == I_BLOCK_SPECIAL) = false := by decide
  simp [chunkStep, hbytes, rwChunk, htype, hspec, hread]

/-- The ways of a peek meet at the chunk loop. -/
theorem readwriteInode_peek (hreq : req.rwFlag = .peeking)
    (htype : w.core.rip.type = I_IMMEDIATE) :
    readwriteInode env sb grant w req =
      (peekEntry grant w req).bind
        (transfer env sb grant .peeking sb.s_block_size (w.core.rip.i_size : Int) true) := by
  have hspec : (I_IMMEDIATE == I_BLOCK_SPECIAL) = false := by decide
  have hcheck : checkWrite sb w.core req (w.core.rip.i_size : Int) false = some OK := by
    simp [checkWrite, hreq]
  simp only [readwriteInode, htype, hspec, Bool.false_eq_true, if_false, hcheck, Option.bind_some,
    ne_eq, not_true, if_true, hreq, reduceCtorEq, growing_immediate, peekEntry]
  by_cases hbehind : (w.core.rip.i_size : Int) ≤ req.position
  · simp only [hbehind, if_true, Option.bind_some]
    rfl
  · simp only [hbehind, if_false]
    rfl

/-- With nothing left to transfer the loop ends at once, and a peek does not set the size. -/
theorem transfer_peek_done (hdone : s.nrbytes = 0) (blockSize : Nat) (fSize : Int) :
    transfer env sb grant .peeking blockSize fSize true s =
      some ({ r := s.r, seekPos := s.position, nbytes := s.cumIo }, s.world) := by
  simp [transfer, chunkLoop_done hdone]

/-- The inline copy is made: the position is in front of the end, and the kernel grants it. -/
def PeekCopies (grant : Grant) (rip : Inode) (req : Request) : Prop :=
  req.position < rip.i_size ∧ grant 0 req.nbytes = OK

/-- A peek that copies leaves nothing for the loop; one that does not leaves everything. -/
theorem peekEntry_copies (hpos : 0 ≤ req.position)
    (hcopies : PeekCopies grant w.core.rip req) :
    peekEntry grant w req =
      if (I_ZONE_BYTES : Int) < req.position + req.nbytes then none
      else some
        { r := OK
          world := { w with core := { w.core with rip := { w.core.rip with
            i_zone := copyBytes w.core.rip.i_zone req.position.toNat w.user 0 req.nbytes } } }
          position := req.position + req.nbytes
          nrbytes := 0
          cumIo := req.nbytes } := by
  have hfront : ¬ (w.core.rip.i_size : Int) ≤ req.position := Int.not_le.2 hcopies.1
  have hneg : ¬ req.position < 0 := Int.not_lt.2 hpos
  simp only [peekEntry, hfront, if_false, immediateTransfer, reduceCtorEq, loopStart, hcopies.2,
    if_true, hneg, false_or, Nat.zero_add]

theorem peekEntry_leaves (hcopies : ¬ PeekCopies grant w.core.rip req) :
    ∃ r, peekEntry grant w req = some { loopStart w req with r := r } := by
  by_cases hbehind : (w.core.rip.i_size : Int) ≤ req.position
  · exact ⟨OK, by simp [peekEntry, hbehind, loopStart]⟩
  · have hgrant : ¬ grant 0 req.nbytes = OK := fun hok => hcopies ⟨Int.not_le.1 hbehind, hok⟩
    refine ⟨grant 0 req.nbytes, ?_⟩
    simp only [peekEntry, hbehind, if_false, immediateTransfer, reduceCtorEq, loopStart, hgrant]

/-- The loop asks `read_map` exactly when bytes are left at its entry. -/
theorem asksReadMap_iff (htype : w.core.rip.type = I_IMMEDIATE) (hpos : 0 ≤ req.position) :
    AsksReadMap env sb grant w req ↔
      ¬ PeekCopies grant w.core.rip req ∧ req.nbytes ≠ 0 := by
  constructor
  · rintro ⟨entry, s, hentry, hturns, hbytes, _⟩
    -- An entry without bytes left makes no turn.
    have hstill : entry.nrbytes = 0 → s = entry := by
      intro hdone
      rcases hturns.cases_head with heq | ⟨s₁, hturn, _⟩
      · exact heq.symm
      · simp [PeekTurn, chunkStep, hdone] at hturn
    by_cases hcopies : PeekCopies grant w.core.rip req
    · rw [peekEntry_copies hpos hcopies] at hentry
      split at hentry
      · cases hentry
      · cases hentry
        exact absurd (by rw [hstill rfl]) hbytes
    · refine ⟨hcopies, fun hzero => ?_⟩
      rcases peekEntry_leaves hcopies with ⟨r, hleaves⟩
      rw [hleaves] at hentry
      cases hentry
      exact absurd (by rw [hstill hzero]; exact hzero) hbytes
  · rintro ⟨hcopies, hbytes⟩
    rcases peekEntry_leaves hcopies with ⟨r, hleaves⟩
    exact ⟨_, _, hleaves, .refl, hbytes, htype⟩

end Peek

/-- A copy changes nothing exactly when the bytes are there already. -/
theorem copyBytes_eq_self {dst src : Bytes} {dstOff srcOff n : Nat} :
    copyBytes dst dstOff src srcOff n = dst ↔
      ∀ i, i < n → src (srcOff + i) = dst (dstOff + i) := by
  constructor
  · intro h i hi
    have hcopied := congrFun h (dstOff + i)
    have hin : dstOff ≤ dstOff + i ∧ dstOff + i < dstOff + n := by omega
    rwa [copyBytes, if_pos hin, Nat.add_sub_cancel_left] at hcopied
  · intro h
    funext i
    by_cases hin : dstOff ≤ i ∧ i < dstOff + n
    · have hbyte := h (i - dstOff) (by omega)
      rw [copyBytes, if_pos hin, hbyte]
      congr 1
      omega
    · rw [copyBytes, if_neg hin]

/-- The result of a peek whose entry to the chunk loop has no bytes left. -/
theorem fsReadwrite_peek_done {env : Env} {sb : SuperBlock} {grant : Grant} {srv : Server}
    {user : Bytes} {ino : Nat} {rip : Inode} {req : Request} (hrip : srv.inodes ino = some rip)
    (htype : rip.type = I_IMMEDIATE) (hreq : req.rwFlag = .peeking) {s : LoopState}
    (hentry : peekEntry grant { core := srv.core rip, user := user } req = some s)
    (hdone : s.nrbytes = 0) :
    fsReadwrite env sb grant srv user ino req =
      some ({ r := s.r, seekPos := s.position, nbytes := s.cumIo },
        { inodes := Function.update srv.inodes ino (some s.world.core.rip)
          disk := s.world.core.disk
          used := s.world.core.used },
        s.world.user) := by
  have hrun : readwriteInode env sb grant { core := srv.core rip, user := user } req =
      some ({ r := s.r, seekPos := s.position, nbytes := s.cumIo }, s.world) := by
    rw [readwriteInode_peek hreq htype, hentry, Option.bind_some, transfer_peek_done hdone]
  simp only [fsReadwrite, hrip]
  rw [← Server.core, hrun]
  rfl

/-- **Peeking.**  A peek at an immediate inode is harmless exactly when the inline copy from the caller
is made, ends within the data area and brings the bytes that are there already, or when it is not made
and no bytes are asked for. -/
theorem harmless_peek_iff {env : Env} {sb : SuperBlock} {grant : Grant} {srv : Server}
    {user : Bytes} {ino : Nat} {rip : Inode} {req : Request} (hrip : srv.inodes ino = some rip)
    (htype : rip.type = I_IMMEDIATE) (hreq : req.rwFlag = .peeking) (hpos : 0 ≤ req.position) :
    HarmlessPeek env sb grant srv user ino rip req ↔
      (PeekCopies grant rip req ∧ req.position + req.nbytes ≤ I_ZONE_BYTES ∧
          ∀ i, i < req.nbytes → user i = rip.i_zone (req.position.toNat + i)) ∨
        (¬ PeekCopies grant rip req ∧ req.nbytes = 0) := by
  have hasks : AsksReadMap env sb grant { core := srv.core rip, user := user } req ↔
      ¬ PeekCopies grant rip req ∧ req.nbytes ≠ 0 := asksReadMap_iff htype hpos
  by_cases hcopies : PeekCopies grant rip req
  · have hentry := peekEntry_copies (w := { core := srv.core rip, user := user }) hpos hcopies
    simp only [hcopies, true_and, not_true, false_and, or_false]
    constructor
    · rintro ⟨⟨reply, srv', user', rip', hrun, hrip', hzone, _⟩, _⟩
      have hin : ¬ (I_ZONE_BYTES : Int) < req.position + req.nbytes := by
        intro hout
        rw [if_pos hout] at hentry
        have hnone : readwriteInode env sb grant { core := srv.core rip, user := user } req =
            none := by
          rw [readwriteInode_peek hreq htype, hentry]
          rfl
        simp only [fsReadwrite, hrip] at hrun
        rw [← Server.core, hnone] at hrun
        cases hrun
      rw [if_neg hin] at hentry
      rw [fsReadwrite_peek_done hrip htype hreq hentry rfl] at hrun
      cases hrun
      have hstored := (Function.update_self ino _ srv.inodes).symm.trans hrip'
      rw [← Option.some.inj hstored] at hzone
      refine ⟨Int.not_lt.1 hin, ?_⟩
      intro i hi
      have hbyte := copyBytes_eq_self.1 hzone i hi
      rwa [Nat.zero_add] at hbyte
    · rintro ⟨hin, hbytes⟩
      rw [if_neg (Int.not_lt.2 hin)] at hentry
      refine ⟨⟨_, _, _, _, fsReadwrite_peek_done hrip htype hreq hentry rfl,
        Function.update_self _ _ _, ?_, rfl, rfl, rfl⟩, fun hask => (hasks.1 hask).1 hcopies⟩
      refine copyBytes_eq_self.2 ?_
      intro i hi
      rw [Nat.zero_add]
      exact hbytes i hi
  · simp only [hcopies, false_and, not_false_iff, true_and, false_or]
    constructor
    · intro h
      by_contra hbytes
      exact h.unread (hasks.2 ⟨hcopies, hbytes⟩)
    · intro hzero
      rcases peekEntry_leaves (w := { core := srv.core rip, user := user }) hcopies with ⟨r, hentry⟩
      exact ⟨⟨_, _, _, _, fsReadwrite_peek_done hrip htype hreq hentry hzero,
        Function.update_self _ _ _, rfl, rfl, rfl, rfl⟩, fun hask => (hasks.1 hask).2 hzero⟩

/-- A peek at no bytes of a fresh file. -/
theorem harmless_peek_no_bytes :
    HarmlessPeek firstFit smallFs (fun _ _ => EPERM) freshServer zeros 2 freshInode
      { rwFlag := .peeking, position := 0, nbytes := 0 } :=
  (harmless_peek_iff rfl (by decide) rfl (by decide)).2
    (.inr ⟨fun hcopies => absurd hcopies.1 (by decide), rfl⟩)

/-- A peek at a block of a fresh file: `new_block` takes zone 5 out of the bit map. -/
theorem peek_takes_zone :
    (∃ reply srv' user', fsReadwrite firstFit smallFs (fun _ _ => EPERM) freshServer zeros 2
        { rwFlag := .peeking, position := 0, nbytes := 64 } = some (reply, srv', user') ∧
      freshServer.used 5 = false ∧ srv'.used 5 = true) ∧
    ¬ HarmlessPeek firstFit smallFs (fun _ _ => EPERM) freshServer zeros 2 freshInode
      { rwFlag := .peeking, position := 0, nbytes := 64 } := by
  have hrun : (fsReadwrite firstFit smallFs (fun _ _ => EPERM) freshServer zeros 2
      { rwFlag := .peeking, position := 0, nbytes := 64 }).map (fun x => x.2.1.used 5) =
        some true := by decide +kernel
  rcases Option.map_eq_some_iff.1 hrun with ⟨⟨reply, srv', user'⟩, hsome, hused⟩
  refine ⟨⟨reply, srv', user', hsome, rfl, hused⟩, ?_⟩
  rintro ⟨⟨reply₁, srv₁, user₁, _, hsome₁, _, _, _, _, hsame⟩, _⟩
  rw [hsome] at hsome₁
  cases hsome₁
  have hfree : srv'.used 5 = false := congrFun hsame 5
  exact absurd (hused.symm.trans hfree) (by decide)

end Mfs
end OsLab
