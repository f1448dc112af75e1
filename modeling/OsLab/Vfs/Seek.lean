import OsLab.Lib.Runs
import OsLab.Mfs.Inline
import OsLab.Vfs.Truncate

/-!
# Seek — where inline writes go

`actual_lseek` guards against an overflow and against nothing else, so it stores a negative position
in `filp_pos`.  A write from there passes the size check of `fs_readwrite` and its test
`position + nrbytes > 32`, and the bytes are copied to `i_zone + position`, in front of the data area.

`inline_writes_in_range_iff` says that the lower end is all that can go wrong, and that it does not
in a run in which no seek goes below 0: reading, writing, opening and truncating leave positions and
sizes that are not negative.
-/

namespace OsLab

namespace Vfs

open OsLab.Lib
open OsLab.Mfs (RwFlag Server Inode Request OK I_IMMEDIATE ServedInline storedBytes fsReadwrite)

/-! ## Requests that are served inline -/

/-- The vnode and the request of a write call that gets to the file system server. -/
def writeRequest (st : State) : FileCall → Option (Vnode × Request)
  | .file (.write fd _ nbytes) =>
      (st.filps fd).bind fun f =>
        (st.vnodes f.filp_vno).bind fun vp =>
          if f.filp_mode &&& W_BIT = 0 ∨ nbytes = 0 ∨ SSIZE_MAX < nbytes then none
          else if vp.type = S_IFIFO ∨ vp.type = S_IFCHR ∨ vp.type = S_IFBLK then none
          else some (vp, { rwFlag := .writing, position := startPos .writing f vp, nbytes := nbytes })
  | _ => none

section Conditions

variable (env : Env)

/-- The call is a write that the file system server serves on the immediate path. -/
def ServesInline (st : State) (c : FileCall) (req : Request) : Prop :=
  ∃ vp rip, writeRequest st c = some (vp, req) ∧ st.fs.inodes vp.v_inode_nr = some rip ∧
    ServedInline env.sb (env.grant req.nbytes) (st.fs.core rip) req

/-- A write on the immediate path stores to the bytes 0 .. 31 of `i_zone` only. -/
def InlineInRange (st : State) (c : FileCall) : Prop :=
  ∀ req, ServesInline env st c req → ∀ i ∈ storedBytes req, 0 ≤ i ∧ i < 32

/-- A write on the immediate path does not start at a negative position. -/
def StartsInside (st : State) (c : FileCall) : Prop :=
  ∀ req, ServesInline env st c req → 0 ≤ req.position

end Conditions

/-- A seek that `actual_lseek` accepts does not go below 0. -/
def SeekStays (st : State) : FileCall → Prop
  | .file (.lseek fd whence offset) =>
      ∀ f vp pos, st.filps fd = some f → st.vnodes f.filp_vno = some vp →
        seekBase whence f vp = some pos → SeekAccepted pos offset → 0 ≤ offT (pos + offset)
  | _ => True

section Requests

variable {env : Env} {st : State} {c : FileCall} {req : Request}

/-- The tests that a write has passed when it is a request. -/
theorem writeRequest_inv {vp : Vnode} (h : writeRequest st c = some (vp, req)) :
    ∃ fd buf f, c = .file (.write fd buf req.nbytes) ∧ st.filps fd = some f ∧
      st.vnodes f.filp_vno = some vp ∧ f.filp_mode &&& W_BIT ≠ 0 ∧ req.nbytes ≠ 0 ∧
      ¬ SSIZE_MAX < req.nbytes ∧
      ¬ (vp.type = S_IFIFO ∨ vp.type = S_IFCHR ∨ vp.type = S_IFBLK) ∧
      req = { rwFlag := .writing, position := startPos .writing f vp, nbytes := req.nbytes } := by
  unfold writeRequest at h
  split at h
  · rename_i fd buf nbytes
    rcases Option.bind_eq_some_iff.1 h with ⟨f, hf, h⟩
    rcases Option.bind_eq_some_iff.1 h with ⟨vp', hvp, h⟩
    split at h
    · cases h
    · rename_i htests
      rw [not_or, not_or] at htests
      rcases htests with ⟨hmode, hn, hbig⟩
      split at h
      · cases h
      · rename_i hspecial
        cases h
        exact ⟨fd, buf, f, rfl, hf, hvp, hmode, hn, hbig, hspecial, rfl⟩
  · cases h

/-- The call goes on exactly when the file system server does. -/
theorem fileStep_write (env : Env) {fd n : Nat} {buf : Bytes} {vp : Vnode}
    (h : writeRequest st (.file (.write fd buf n)) = some (vp, req)) :
    (fsReadwrite env.mfs env.sb (env.grant req.nbytes) st.fs buf vp.v_inode_nr req = none →
      fileStep env st (.file (.write fd buf n)) = none) ∧
    ∀ reply fs buf',
      fsReadwrite env.mfs env.sb (env.grant req.nbytes) st.fs buf vp.v_inode_nr req =
        some (reply, fs, buf') →
      ∃ st', fileStep env st (.file (.write fd buf n)) = some st' ∧ st'.fs = fs := by
  rcases writeRequest_inv h with ⟨fd, buf, f, hcall, hf, hvp, hmode, hn, hbig, hspecial, hreq⟩
  cases hcall
  have hstep : fileStep env st (.file (.write fd buf req.nbytes)) =
      (readWrite env st .writing fd f vp buf req.nbytes).map fun out => out.2.1 := by
    simp only [fileStep, fileCall, call, actualReadWritePeek, hf, if_true, hmode, hn, if_false, hvp,
      Option.bind_some, Option.map_map]
    rfl
  rw [hstep, readWrite, if_neg hbig, requestIo, if_neg hspecial]
  simp only [← hreq]
  refine ⟨?_, ?_⟩
  · intro hnone
    simp only [hnone, Option.map_none]
  · intro reply fs buf' hsome
    simp only [hsome, Option.map_some]
    split
    · exact ⟨_, rfl, rfl⟩
    · exact ⟨_, rfl, rfl⟩

/-- The write call copies the buffer to `storedBytes` and leaves all other bytes of `i_zone` as they are.
From a negative position it stores in front of `i_zone`, where there is no state to go on with. -/
structure StoresInline (env : Env) (st : State) (fd : Nat) (buf : Bytes) (n : Nat) (vp : Vnode)
    (rip : Inode) (req : Request) : Prop where
  inFront : req.position < 0 → fileStep env st (.file (.write fd buf n)) = none
  inside : 0 ≤ req.position → ∃ st' rip', fileStep env st (.file (.write fd buf n)) = some st' ∧
    st'.fs.inodes vp.v_inode_nr = some rip' ∧
    ∀ i : Nat, rip'.i_zone i =
      if (i : Int) ∈ storedBytes req then buf (i - req.position.toNat) else rip.i_zone i

theorem storesInline {fd n : Nat} {buf : Bytes} {vp : Vnode} {rip : Inode}
    (hwrite : writeRequest st (.file (.write fd buf n)) = some (vp, req))
    (hrip : st.fs.inodes vp.v_inode_nr = some rip)
    (hserved : ServedInline env.sb (env.grant req.nbytes) (st.fs.core rip) req) :
    StoresInline env st fd buf n vp rip req := by
  rcases fileStep_write env hwrite with ⟨hnone, hsome⟩
  simp only [fsReadwrite, hrip] at hnone hsome
  constructor
  · intro hneg
    apply hnone
    rw [Option.map_eq_none_iff]
    exact Mfs.readwriteInode_inline_negative hserved hneg
  · intro hpos
    rcases Mfs.readwriteInode_inline_stores env.mfs (w := { core := st.fs.core rip, user := buf })
      hserved hpos with ⟨reply, w', hrw, _, hzone⟩
    rcases hsome reply _ w'.user (Option.map_eq_some_iff.2 ⟨(reply, w'), hrw, rfl⟩) with
      ⟨st', hstep, hfs⟩
    refine ⟨st', w'.core.rip, hstep, ?_, hzone⟩
    rw [hfs]
    exact Function.update_self ..

/-- A write that is served inline from a negative position has no state afterwards. -/
theorem ServesInline.inFront {fd n : Nat} {buf : Bytes}
    (h : ServesInline env st (.file (.write fd buf n)) req) (hneg : req.position < 0) :
    fileStep env st (.file (.write fd buf n)) = none := by
  rcases h with ⟨vp, rip, hwrite, hrip, hserved⟩
  exact (storesInline hwrite hrip hserved).inFront hneg

/-- The end is tested, so that a write that starts in the data area stays in it. -/
theorem inlineInRange_iff : InlineInRange env st c ↔ StartsInside env st c := by
  constructor
  · rintro h req ⟨vp, rip, hwrite, hrip, hserved⟩
    rcases writeRequest_inv hwrite with ⟨_, _, _, _, _, _, _, hn, _⟩
    -- There is a first byte.
    have hfirst : req.position ∈ storedBytes req := by
      rw [Mfs.mem_storedBytes]
      omega
    exact (h req ⟨vp, rip, hwrite, hrip, hserved⟩ _ hfirst).1
  · intro h req hinline i hi
    have hpos := h req hinline
    rcases hinline with ⟨vp, rip, _, _, hserved⟩
    have hend := hserved.2.2.2.1
    rw [Mfs.mem_storedBytes] at hi
    omega

end Requests

/-! ## Positions and sizes -/

/-- Positions and sizes are not negative, and all vnodes are vnodes of created files. -/
structure SeekInv (st : State) : Prop where
  position : ∀ fd f, st.filps fd = some f → 0 ≤ f.filp_pos
  size : ∀ slot vp, st.vnodes slot = some vp → vp.type = S_IFIMM ∧ 0 ≤ vp.v_size

theorem update_eq_some {α : Type} {table : Nat → Option α} {k j : Nat} {x : Option α} {y : α}
    (h : Function.update table k x j = some y) : table j = some y ∨ x = some y := by
  by_cases hj : j = k
  · rw [hj, Function.update_self] at h
    exact .inr h
  · rw [Function.update_of_ne hj] at h
    exact .inl h

section Steps

variable {env : Env} {st st' : State} {slot : Nat} {vp : Vnode}

theorem SeekInv.initial (fs : Server) : SeekInv (initial fs) := by
  constructor
  · intro fd f h
    cases h
  · intro slot vp h
    cases h

/-- One descriptor changes. -/
theorem SeekInv.setFilp (h : SeekInv st) {fd : Nat} {x : Option Filp}
    (hx : ∀ f, x = some f → 0 ≤ f.filp_pos) :
    SeekInv { st with filps := Function.update st.filps fd x } := by
  refine ⟨?_, h.size⟩
  intro fd' f hf
  rcases update_eq_some hf with hold | hnew
  · exact h.position fd' f hold
  · exact hx f hnew

/-- One vnode changes, and the file system may change with it. -/
theorem SeekInv.setVnode (h : SeekInv st) (htype : vp.type = S_IFIMM) (hsize : 0 ≤ vp.v_size)
    (fs : Server) (names : Nat → Option Nat) :
    SeekInv
      { st with
        vnodes := Function.update st.vnodes slot (some vp)
        names := names
        fs := fs } := by
  refine ⟨h.position, ?_⟩
  intro slot' vp' hvp'
  rcases update_eq_some hvp' with hold | hnew
  · exact h.size slot' vp' hold
  · cases hnew
    exact ⟨htype, hsize⟩

theorem SeekInv.newNode (henv : FsOk env) (h : SeekInv st) {path mode : Nat} {r : Int}
    {found : Option Nat} (hmode : (mode &&& S_IFMT) = S_IFIMM)
    (hnew : newNode env st path mode = (r, found, st')) : SeekInv st' := by
  rcases newNode_cases hnew with rfl | ⟨slot, res, fs, hcreate, rfl⟩
  · exact h
  · rcases henv.create _ _ _ _ _ hcreate with ⟨hfmode, hfsize, _⟩
    refine h.setVnode ?_ ?_ fs _
    · rw [Vnode.type, hfmode]
      exact hmode
    · exact le_of_eq hfsize.symm

theorem SeekInv.truncateVnode (h : SeekInv st) (hvp : st.vnodes slot = some vp) {newsize : Int}
    (hsize : 0 ≤ newsize) : SeekInv (truncateVnode env st slot vp newsize).2 := by
  simp only [Vfs.truncateVnode]
  split
  · exact h
  · split
    · refine h.setVnode ?_ hsize _ _
      exact (h.size slot vp hvp).1
    · exact ⟨h.position, h.size⟩

theorem SeekInv.commonOpen (henv : FsOk env) (h : SeekInv st) {path oflags omode umask : Nat}
    {r : Int} (hopen : commonOpen env st path oflags omode umask = some (r, st')) :
    SeekInv st' := by
  refine commonOpen_keeps ?_ ?_ ?_ h hopen
  · intro st mode r found st' hmode hnew h
    exact h.newNode henv hmode hnew
  · intro st slot vp hvp h
    exact h.truncateVnode hvp (Int.le_refl 0)
  · intro st fd x hx h
    refine h.setFilp ?_
    intro f hf
    exact le_of_eq (hx f hf).symm

/-- A transfer starts at a position that is not negative and moves it forward or not at all. -/
theorem SeekInv.readWrite (h : SeekInv st) {rwFlag : RwFlag} {fd n : Nat} {f : Filp}
    {buf buf' : Bytes} {r : Int} (hf : st.filps fd = some f) (hvp : st.vnodes f.filp_vno = some vp)
    (hrw : readWrite env st rwFlag fd f vp buf n = some (r, st', buf')) : SeekInv st' := by
  rcases h.size _ vp hvp with ⟨htype, hsize⟩
  have hstart : 0 ≤ startPos rwFlag f vp := by
    simp only [startPos]
    split
    · exact hsize
    · exact h.position fd f hf
  simp only [Vfs.readWrite] at hrw
  split at hrw
  · cases hrw
    exact h
  · rcases Option.map_eq_some_iff.1 hrw with ⟨⟨r₁, position, cumIo, fs, buf₁⟩, hio, hend⟩
    rw [requestIo_created htype] at hio
    rcases Option.map_eq_some_iff.1 hio with ⟨⟨reply, fs', buf₂⟩, hfs, hreply⟩
    have hposition : 0 ≤ position := by
      simp only at hreply
      split at hreply
      · rename_i hok
        cases hreply
        have hmoved := Mfs.fsReadwrite_position hfs hok.2
        simp only at hmoved
        omega
      · cases hreply
        exact hstart
    cases hend
    have hfilps : SeekInv
        { st with filps := Function.update st.filps fd (some { f with filp_pos := position }) } := by
      refine h.setFilp ?_
      intro f' hf'
      cases hf'
      exact hposition
    refine hfilps.setVnode ?_ ?_ fs _
    · split <;> exact htype
    · split
      · exact hposition
      · exact hsize

/-- Only a seek can bring a negative position in. -/
theorem SeekInv.fileCall (henv : FsOk env) (h : SeekInv st) {c : FileCall} (hstays : SeekStays st c)
    {r : Int} (hcall : fileCall env st c = some (r, st')) : SeekInv st' := by
  refine fileCall_keeps h ?_ ?_ ?_ hcall
  · rintro c' rfl hcall
    refine call_keeps h ?_ ?_ ?_ hcall
    · intro path oflags omode umask hopen
      exact h.commonOpen henv hopen
    · intro rwFlag fd f vp buf n buf' _ hf hvp hrw
      exact h.readWrite hf hvp hrw
    · rintro fd whence offset rfl hseek
      rcases actualLseek_cases hseek with rfl | ⟨f, vp, pos, hf, hvp, hbase, haccepted, rfl⟩
      · exact h
      · refine h.setFilp ?_
        intro f' hf'
        cases hf'
        exact hstays f vp pos hf hvp hbase haccepted
  · intro path oflags umask hopen
    exact h.commonOpen henv hopen
  · intro slot vp length htarget
    rcases fileCall_target htarget with ⟨hvp, hlength, _⟩
    exact h.truncateVnode hvp hlength

/-- With the invariant every write starts at 0 or behind it. -/
theorem SeekInv.startsInside (h : SeekInv st) (c : FileCall) : StartsInside env st c := by
  rintro req ⟨vp, rip, hwrite, _, _⟩
  rcases writeRequest_inv hwrite with ⟨fd, buf, f, _, hf, hvp, _, _, _, _, hreq⟩
  rw [hreq]
  show 0 ≤ startPos .writing f vp
  simp only [startPos]
  split
  · exact (h.size _ vp hvp).2
  · exact h.position fd f hf

end Steps

/-- In every run of calls on files that `common_open` creates, all inline writes stay within the bytes
0 .. 31 of `i_zone` if and only if none of them starts at a negative position, and no one does in a
run without an accepted seek below 0.  The bytes in question are those that the call stores to. -/
theorem inline_writes_in_range_iff {env : Env} (henv : FsOk env) (fs : Server)
    (cs : List FileCall) :
    (Guarded (fileStep env) (InlineInRange env) (initial fs) cs ↔
      Guarded (fileStep env) (StartsInside env) (initial fs) cs) ∧
      (Guarded (fileStep env) SeekStays (initial fs) cs →
        Guarded (fileStep env) (InlineInRange env) (initial fs) cs) ∧
      ∀ st fd buf n vp rip req, writeRequest st (.file (.write fd buf n)) = some (vp, req) →
        st.fs.inodes vp.v_inode_nr = some rip →
        ServedInline env.sb (env.grant req.nbytes) (st.fs.core rip) req →
        StoresInline env st fd buf n vp rip req := by
  refine ⟨guarded_congr (fun _ _ => inlineInRange_iff) _ cs, ?_, ?_⟩
  · refine Guarded.imp ?_ ?_ (SeekInv.initial fs)
    · intro st c st' h hstays hstep
      rcases Option.map_eq_some_iff.1 hstep with ⟨⟨r, st₁⟩, hcall, rfl⟩
      exact h.fileCall henv hstays hcall
    · intro st c h _
      exact inlineInRange_iff.2 (h.startsInside c)
  · intro st fd buf n vp rip req hwrite hrip hserved
    exact storesInline hwrite hrip hserved

/-- Create a file and seek from its start. -/
def createAndSeek (offset : Int) : List FileCall :=
  createFile.map .file ++ [.file (.lseek 0 .seekSet offset)]

/-- A write of five bytes from position 10 on. -/
theorem inline_writes_in_range_iff_ten :
    Guarded (fileStep plainEnv) (InlineInRange plainEnv) (initial emptyServer)
      (createAndSeek 10 ++ [.file (.write 0 zeros 5)]) := by
  refine (inline_writes_in_range_iff plainEnv_ok emptyServer _).2.1 ?_
  refine ⟨trivial, fun _ _ => ⟨?_, fun _ _ => ⟨trivial, fun _ _ => trivial⟩⟩⟩
  intro f vp pos _ _ hbase _
  cases hbase
  decide

/-- A new file, a seek to −10 that is accepted, and a write of five bytes: they are stored from ten
bytes in front of `i_zone` on. -/
theorem negative_seek_stores_outside :
    ¬ Guarded (fileStep plainEnv) (InlineInRange plainEnv) (initial emptyServer)
        (createAndSeek (-10) ++ [.file (.write 0 zeros 5)]) ∧
      ∃ st, (createAndSeek (-10)).foldlM (fileStep plainEnv) (initial emptyServer) = some st ∧
        fileStep plainEnv st (.file (.write 0 zeros 5)) = none := by
  have hresult : ((createAndSeek (-10)).foldlM (fileStep plainEnv) (initial emptyServer)).bind
      (fun st =>
        (writeRequest st (.file (.write 0 zeros 5))).bind fun x =>
          (st.fs.inodes x.1.v_inode_nr).map fun rip =>
            (x.2.position, decide (ServedInline plainEnv.sb (plainEnv.grant x.2.nbytes)
              (st.fs.core rip) x.2))) = some (-10, true) := by
    decide +kernel
  rcases Option.bind_eq_some_iff.1 hresult with ⟨st, hrun, hresult⟩
  rcases Option.bind_eq_some_iff.1 hresult with ⟨⟨vp, req⟩, hwrite, hresult⟩
  rcases Option.map_eq_some_iff.1 hresult with ⟨rip, hrip, hend⟩
  simp only [Prod.mk.injEq, decide_eq_true_eq] at hend
  rcases hend with ⟨hposition, hserved⟩
  have hinline : ServesInline plainEnv st (.file (.write 0 zeros 5)) req :=
    ⟨vp, rip, hwrite, hrip, hserved⟩
  refine ⟨?_, st, hrun, hinline.inFront (by omega)⟩
  intro hguarded
  have hstarts := inlineInRange_iff.1 ((guarded_concat.1 hguarded).2 st hrun) req hinline
  omega

end Vfs
end OsLab
