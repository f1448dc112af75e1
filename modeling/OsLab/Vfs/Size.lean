import OsLab.Lib.Runs
import OsLab.Mfs.Agreement
import OsLab.Mfs.Size
import OsLab.Vfs.Model

/-!
# Size — the two copies of the file size

A vnode keeps the size of its file, and so does the inode in the file system server.  `read_write`
updates `v_size` only for regular files and directories, and goes by `v_mode`, which stays
`I_IMMEDIATE` after `common_open` has created the file, also when the server has long converted it.
So in every reachable state `v_size` is 0, whatever was written.
-/

namespace OsLab
namespace Vfs

open OsLab.Lib
open OsLab.Mfs (RwFlag Server Inode fsReadwrite OK I_IMMEDIATE)

/-! ## What the calls can do -/

section Cases

variable {env : Env} {st st' : State} {slot : Nat}

/-- `new_node` fails, finds a file, or makes a vnode for a new one. -/
theorem newNode_cases {path mode : Nat} {r : Int} {found : Option Nat}
    (h : newNode env st path mode = (r, found, st')) :
    st' = st ∨ ∃ slot res fs, env.reqCreate st.fs path mode = .ok (res, fs) ∧
      st' =
        { st with
          vnodes := Function.update st.vnodes slot
            (some { v_mode := res.fmode, v_size := res.fsize, v_inode_nr := res.inode_nr })
          names := Function.update st.names path (some slot)
          fs := fs } := by
  simp only [newNode] at h
  cases herror : env.pathError st path with
  | some r' =>
      simp only [herror] at h
      cases h
      exact .inl rfl
  | none =>
      cases hname : st.names path with
      | some slot =>
          simp only [herror, hname] at h
          cases h
          exact .inl rfl
      | none =>
          cases hfree : env.getFreeVnode st with
          | none =>
              simp only [herror, hname, hfree] at h
              cases h
              exact .inl rfl
          | some slot =>
              cases hcreate : env.reqCreate st.fs path mode with
              | error r' =>
                  simp only [herror, hname, hfree, hcreate] at h
                  cases h
                  exact .inl rfl
              | ok x =>
                  rcases x with ⟨res, fs⟩
                  simp only [herror, hname, hfree, hcreate] at h
                  cases h
                  exact .inr ⟨slot, res, fs, rfl, rfl⟩

/-- Opening a file that was there before changes it only to truncate it. -/
theorem openExisting_cases {oflags bits : Nat} {r : Int}
    (h : openExisting env st slot oflags bits = some (r, st')) :
    st' = st ∨ ∃ vp, st.vnodes slot = some vp ∧ st' = (truncateVnode env st slot vp 0).2 := by
  rcases Option.map_eq_some_iff.1 h with ⟨vp, hvp, hrest⟩
  simp only at hrest
  by_cases hallowed : env.forbidden vp bits = OK
  · simp only [hallowed, ne_eq, not_true_eq_false, if_false] at hrest
    split at hrest
    · split at hrest
      · split at hrest
        · cases hrest
          exact .inl rfl
        · cases hrest
          exact .inr ⟨vp, hvp, rfl⟩
      · cases hrest
        exact .inl rfl
    · split at hrest
      · cases hrest
        exact .inl rfl
      · cases hrest
        exact .inl rfl
  · simp only [ne_eq, hallowed, not_false_eq_true, if_true] at hrest
    cases hrest
    exact .inl rfl

/-- The state with a descriptor at position 0. -/
def State.claimed (st : State) (fd slot oflags bits : Nat) : State :=
  { st with
    filps := Function.update st.filps fd
      (some { filp_mode := bits, filp_flags := oflags, filp_pos := 0, filp_vno := slot }) }

/-- A descriptor is claimed, the file is opened, and the descriptor may be given back. -/
theorem claimFilp_cases {fd oflags bits : Nat} {exist : Bool} {r r' : Int}
    (h : claimFilp env st fd slot oflags bits exist r = some (r', st')) :
    ∃ st₁, (st₁ = st.claimed fd slot oflags bits ∨
        ∃ r₁, openExisting env (st.claimed fd slot oflags bits) slot oflags bits = some (r₁, st₁)) ∧
      (st' = st₁ ∨ st' = { st₁ with filps := Function.update st₁.filps fd none }) := by
  rcases Option.map_eq_some_iff.1 h with ⟨⟨r₁, st₁⟩, hopen, hrest⟩
  refine ⟨st₁, ?_, ?_⟩
  · cases exist with
    | false =>
        cases hopen
        exact .inl rfl
    | true => exact .inr ⟨r₁, hopen⟩
  · simp only at hrest
    split at hrest
    · cases hrest
      exact .inl rfl
    · split at hrest
      · cases hrest
        exact .inl rfl
      · cases hrest
        exact .inr rfl

/-- Everything that `common_open` can do. -/
theorem commonOpen_cases {path oflags omode umask : Nat} {r : Int}
    (h : commonOpen env st path oflags omode umask = some (r, st')) :
    ∃ st₁, (st₁ = st ∨ ∃ r₁ found,
        newNode env st path (I_IMMEDIATE ||| (omode &&& ALLPERMS &&& umask)) = (r₁, found, st₁)) ∧
      (st' = st₁ ∨ ∃ fd slot bits exist r₁ r₂,
        claimFilp env st₁ fd slot oflags bits exist r₁ = some (r₂, st')) := by
  simp only [commonOpen] at h
  split at h
  · cases h
    exact ⟨st, .inl rfl, .inl rfl⟩
  · cases hfd : env.getFd st with
    | error r' =>
        simp only [hfd] at h
        cases h
        exact ⟨st, .inl rfl, .inl rfl⟩
    | ok fd =>
        simp only [hfd] at h
        split at h
        · cases hnew : newNode env st path (I_IMMEDIATE ||| (omode &&& ALLPERMS &&& umask)) with
          | mk r' x =>
              rcases x with ⟨found, st₁⟩
              simp only [hnew] at h
              refine ⟨st₁, .inr ⟨r', found, rfl⟩, ?_⟩
              cases found with
              | none =>
                  cases h
                  exact .inl rfl
              | some slot =>
                  simp only at h
                  split at h
                  · exact .inr ⟨fd, slot, _, _, _, _, h⟩
                  · exact .inr ⟨fd, slot, _, _, _, _, h⟩
        · split at h
          · cases h
            exact ⟨st, .inl rfl, .inl rfl⟩
          · cases h
            exact ⟨st, .inl rfl, .inl rfl⟩
          · exact ⟨st, .inl rfl, .inr ⟨fd, _, _, _, _, _, h⟩⟩

/-- The mode of a new file. -/
theorem created_mode_type (m : Nat) : (I_IMMEDIATE ||| (m &&& ALLPERMS)) &&& S_IFMT = S_IFIMM := by
  have hperm : m &&& ALLPERMS &&& S_IFMT = 0 := by
    rw [Nat.and_assoc]
    exact Nat.and_zero m
  calc
    (I_IMMEDIATE ||| (m &&& ALLPERMS)) &&& S_IFMT
        = (I_IMMEDIATE &&& S_IFMT) ||| (m &&& ALLPERMS &&& S_IFMT) := Nat.and_or_distrib_right ..
    _ = (I_IMMEDIATE &&& S_IFMT) ||| 0 := by rw [hperm]
    _ = S_IFIMM := by decide

/-- The mode that `common_open` asks for has the type `I_IMMEDIATE`. -/
theorem open_mode_type (omode umask : Nat) :
    (I_IMMEDIATE ||| (omode &&& ALLPERMS &&& umask)) &&& S_IFMT = S_IFIMM := by
  have hswap : omode &&& ALLPERMS &&& umask = omode &&& umask &&& ALLPERMS := by
    rw [Nat.and_assoc, Nat.and_comm ALLPERMS, ← Nat.and_assoc]
  rw [hswap]
  exact created_mode_type _

/-- What creating a file, truncating it to 0, and setting a descriptor to position 0 or to nothing
keep, `common_open` keeps. -/
theorem commonOpen_keeps {P : State → Prop} {path : Nat}
    (hnew : ∀ st mode r found st', (mode &&& S_IFMT) = S_IFIMM →
      newNode env st path mode = (r, found, st') → P st → P st')
    (htruncate : ∀ st slot vp, st.vnodes slot = some vp → P st → P (truncateVnode env st slot vp 0).2)
    (hfilp : ∀ st fd x, (∀ f, x = some f → f.filp_pos = 0) → P st →
      P { st with filps := Function.update st.filps fd x })
    {oflags omode umask : Nat} {r : Int} (h : P st)
    (hopen : commonOpen env st path oflags omode umask = some (r, st')) : P st' := by
  rcases commonOpen_cases hopen with ⟨st₁, hnode, hclaim⟩
  have h₁ : P st₁ := by
    rcases hnode with rfl | ⟨r₁, found, hnode⟩
    · exact h
    · exact hnew _ _ _ _ _ (open_mode_type omode umask) hnode h
  rcases hclaim with rfl | ⟨fd, slot, bits, exist, r₁, r₂, hclaim⟩
  · exact h₁
  · have hclaimed : P (st₁.claimed fd slot oflags bits) := by
      refine hfilp st₁ fd _ ?_ h₁
      intro f hf
      cases hf
      rfl
    rcases claimFilp_cases hclaim with ⟨st₂, hexisting, hback⟩
    have h₂ : P st₂ := by
      rcases hexisting with rfl | ⟨r₃, hexisting⟩
      · exact hclaimed
      · rcases openExisting_cases hexisting with rfl | ⟨vp, hvp, rfl⟩
        · exact hclaimed
        · exact htruncate _ slot vp hvp hclaimed
    rcases hback with rfl | rfl
    · exact h₂
    · -- An error gives the descriptor back.
      refine hfilp st₂ fd none ?_ h₂
      intro f hf
      cases hf

/-- The tests for an overflow let the new position pass. -/
def SeekAccepted (pos offset : Int) : Prop :=
  ¬ (0 < offset ∧ offT (pos + offset) ≤ pos) ∧ ¬ (offset < 0 ∧ pos ≤ offT (pos + offset))

/-- Seeking sets the position of the descriptor, or nothing. -/
theorem actualLseek_cases {fd : Nat} {whence : Whence} {offset r : Int}
    (h : actualLseek env st fd whence offset = some (r, st')) :
    st' = st ∨ ∃ f vp pos, st.filps fd = some f ∧ st.vnodes f.filp_vno = some vp ∧
      seekBase whence f vp = some pos ∧ SeekAccepted pos offset ∧
      st' =
        { st with
          filps := Function.update st.filps fd (some { f with filp_pos := offT (pos + offset) }) } := by
  simp only [actualLseek] at h
  cases hf : st.filps fd with
  | none =>
      simp only [hf] at h
      cases h
      exact .inl rfl
  | some f =>
      simp only [hf] at h
      rcases Option.map_eq_some_iff.1 h with ⟨vp, hvp, hrest⟩
      split at hrest
      · cases hrest
        exact .inl rfl
      · cases hbase : seekBase whence f vp with
        | none =>
            simp only [hbase] at hrest
            cases hrest
            exact .inl rfl
        | some pos =>
            simp only [hbase] at hrest
            split at hrest
            · cases hrest
              exact .inl rfl
            · split at hrest
              · cases hrest
                exact .inl rfl
              · split at hrest
                · cases hrest
                  exact .inr ⟨f, vp, pos, rfl, hvp, hbase, ⟨‹_›, ‹_›⟩, rfl⟩
                · cases hrest
                  exact .inl rfl

end Cases

/-- What the code relies on: a new inode has the mode that was asked for and no bytes, truncating
sets the size and nothing but the size, and a copy by the kernel returns `OK` or an error. -/
structure FsOk (env : Env) : Prop where
  create : ∀ srv path mode res srv', env.reqCreate srv path mode = .ok (res, srv') →
    res.fmode = mode ∧ res.fsize = 0 ∧
      (∃ rip, srv'.inodes res.inode_nr = some rip ∧ rip.i_mode = mode ∧ rip.i_size = 0) ∧
      ∀ j, j ≠ res.inode_nr → srv'.inodes j = srv.inodes j
  truncate : ∀ srv ino len r srv', env.reqFtrunc srv ino len = (r, srv') →
    ∀ j rip, srv.inodes j = some rip → ∃ rip', srv'.inodes j = some rip' ∧
      rip'.i_mode = rip.i_mode ∧ (rip'.i_size = rip.i_size ∨ j = ino ∧ (rip'.i_size : Int) = len)
  copy : ∀ n off len, env.grant n off len ≤ 0

/-- The vnode of a file that was created immediate. -/
structure CreatedVnode (fs : Server) (vp : Vnode) : Prop where
  type : vp.type = S_IFIMM
  size : vp.v_size = 0
  inode : ∃ rip, fs.inodes vp.v_inode_nr = some rip ∧ rip.IsFile

/-- All vnodes are vnodes of created files. -/
def Inv (st : State) : Prop :=
  ∀ slot vp, st.vnodes slot = some vp → CreatedVnode st.fs vp

/-- The vnode of a file that was created immediate, with a size that satisfies `sz`. -/
structure CreatedWith (sz : Int → Prop) (fs : Server) (vp : Vnode) : Prop where
  type : vp.type = S_IFIMM
  size : sz vp.v_size
  inode : ∃ rip, fs.inodes vp.v_inode_nr = some rip ∧ rip.IsFile

/-- `Inv` for a property of the sizes in the vnodes that 0 has. -/
def InvWith (sz : Int → Prop) (st : State) : Prop :=
  ∀ slot vp, st.vnodes slot = some vp → CreatedWith sz st.fs vp

theorem InvWith.inv {st : State} (h : InvWith (fun n => n = 0) st) : Inv st := by
  intro slot vp hvp
  rcases h slot vp hvp with ⟨htype, hsize, hinode⟩
  exact ⟨htype, hsize, hinode⟩

/-- Files stay files. -/
def KeepsFiles (fs fs' : Server) : Prop :=
  ∀ j rip, fs.inodes j = some rip → rip.IsFile →
    ∃ rip', fs'.inodes j = some rip' ∧ rip'.IsFile

section Steps

variable {env : Env} {sz : Int → Prop} {st st' : State} {fs fs' : Server} {vp : Vnode} {slot : Nat}

theorem KeepsFiles.refl (fs : Server) : KeepsFiles fs fs :=
  fun _ rip hrip hfile => ⟨rip, hrip, hfile⟩

theorem CreatedWith.mono (h : CreatedWith sz fs vp) (hfs : KeepsFiles fs fs') :
    CreatedWith sz fs' vp := by
  rcases h.inode with ⟨rip, hrip, hfile⟩
  exact ⟨h.type, h.size, hfs _ rip hrip hfile⟩

theorem initial_inv (fs : Server) : InvWith sz (initial fs) := by
  intro slot vp h
  cases h

/-- A new state whose vnodes are the old ones except for one. -/
theorem InvWith.update (h : InvWith sz st) (hfs : KeepsFiles st.fs st'.fs)
    (hvnodes : st'.vnodes = Function.update st.vnodes slot (some vp))
    (hvp : CreatedWith sz st'.fs vp) : InvWith sz st' := by
  intro slot' vp' hvp'
  rw [hvnodes] at hvp'
  by_cases hslot : slot' = slot
  · rw [hslot, Function.update_self] at hvp'
    cases hvp'
    exact hvp
  · rw [Function.update_of_ne hslot] at hvp'
    exact (h slot' vp' hvp').mono hfs

/-- A new state with the old vnodes. -/
theorem InvWith.same (h : InvWith sz st) (hfs : KeepsFiles st.fs st'.fs)
    (hvnodes : st'.vnodes = st.vnodes) : InvWith sz st' := by
  intro slot' vp' hvp'
  rw [hvnodes] at hvp'
  exact (h slot' vp' hvp').mono hfs

/-- Truncating keeps files, unless it makes an immediate one too long. -/
theorem keepsFiles_truncate (henv : FsOk env) {ino : Nat} {len r : Int}
    (hfit : ∀ rip, fs.inodes ino = some rip → rip.type = I_IMMEDIATE → len ≤ 32)
    (h : env.reqFtrunc fs ino len = (r, fs')) : KeepsFiles fs fs' := by
  intro j rip hrip hfile
  rcases henv.truncate fs ino len r fs' h j rip hrip with ⟨rip', hrip', hmode, hsize⟩
  have htype : rip'.type = rip.type := congrArg (fun m => m &&& Mfs.I_TYPE) hmode
  refine ⟨rip', hrip', ?_⟩
  -- A regular file may get any length.
  rcases hfile with hreg | ⟨himm, hle⟩
  · exact .inl (htype.trans hreg)
  · refine .inr ⟨htype.trans himm, ?_⟩
    rcases hsize with hsame | ⟨rfl, hlen'⟩
    · rw [hsame]
      exact hle
    · have hlen := hfit rip hrip himm
      omega

theorem InvWith.truncateVnode (henv : FsOk env) (h : InvWith sz st)
    (hvp : st.vnodes slot = some vp) {newsize : Int} (hsz : sz newsize)
    (hfit : ∀ rip, st.fs.inodes vp.v_inode_nr = some rip → rip.type = I_IMMEDIATE → newsize ≤ 32) :
    InvWith sz (truncateVnode env st slot vp newsize).2 := by
  have hcreated := h slot vp hvp
  have htype := hcreated.type
  have hnot : ¬ (vp.type ≠ S_IFIFO ∧ vp.type ≠ S_IFREG ∧ vp.type ≠ S_IFIMM) := by
    simp [htype]
  cases htrunc : env.reqFtrunc st.fs vp.v_inode_nr newsize with
  | mk r fs =>
      have hfs := keepsFiles_truncate henv hfit htrunc
      simp only [Vfs.truncateVnode, hnot, if_false, htrunc]
      by_cases hr : r = OK
      · simp only [hr, if_true]
        refine h.update hfs rfl ?_
        exact ⟨htype, hsz, (hcreated.mono hfs).inode⟩
      · simp only [hr, if_false]
        exact h.same hfs rfl

theorem InvWith.newNode (henv : FsOk env) (h0 : sz 0) (h : InvWith sz st) {path mode : Nat}
    {r : Int} {found : Option Nat} (hmode : (mode &&& S_IFMT) = S_IFIMM)
    (hnew : newNode env st path mode = (r, found, st')) : InvWith sz st' := by
  rcases newNode_cases hnew with rfl | ⟨slot, res, fs, hcreate, rfl⟩
  · exact h
  · rcases henv.create _ _ _ _ _ hcreate with
      ⟨hfmode, hfsize, ⟨rip, hrip, hripmode, hripsize⟩, hother⟩
    have hfile : rip.IsFile := by
      refine .inr ⟨?_, by omega⟩
      rw [Inode.type, hripmode]
      exact hmode
    refine h.update ?_ rfl ?_
    · -- The inode is new, and no other one has changed.
      intro j rip' hrip' hfile'
      by_cases hj : j = res.inode_nr
      · exact ⟨rip, hj ▸ hrip, hfile⟩
      · exact ⟨rip', (hother j hj).trans hrip', hfile'⟩
    · refine ⟨?_, hfsize ▸ h0, rip, hrip, hfile⟩
      rw [Vnode.type, hfmode]
      exact hmode

theorem InvWith.commonOpen (henv : FsOk env) (h0 : sz 0) (h : InvWith sz st)
    {path oflags omode umask : Nat} {r : Int}
    (hopen : commonOpen env st path oflags omode umask = some (r, st')) : InvWith sz st' := by
  refine commonOpen_keeps ?_ ?_ ?_ h hopen
  · intro st mode r found st' hmode hnew h
    exact h.newNode henv h0 hmode hnew
  · -- `O_TRUNC` asks for the length 0, which every file allows.
    intro st slot vp hvp h
    exact h.truncateVnode henv hvp h0 fun _ _ _ => by decide
  · intro st fd x _ h
    exact h.same (.refl _) rfl

theorem InvWith.actualLseek (h : InvWith sz st) {fd : Nat} {whence : Whence} {offset r : Int}
    (hseek : actualLseek env st fd whence offset = some (r, st')) : InvWith sz st' := by
  rcases actualLseek_cases hseek with rfl | ⟨f, vp, pos, _, _, _, _, rfl⟩
  · exact h
  · exact h.same (.refl _) rfl

/-- A transfer on a created file is a request to the file system server. -/
theorem requestIo_created (htype : vp.type = S_IFIMM) {rwFlag : RwFlag} {f : Filp} {buf : Bytes}
    {n : Nat} :
    requestIo env st rwFlag f vp buf n =
      (fsReadwrite env.mfs env.sb (env.grant n) st.fs buf vp.v_inode_nr
        { rwFlag := rwFlag, position := startPos rwFlag f vp, nbytes := n }).map
          fun (reply, fs, buf') =>
            if rwFlag ≠ .peeking ∧ 0 ≤ reply.r then
              (reply.r, reply.seekPos, reply.nbytes, fs, buf')
            else (reply.r, startPos rwFlag f vp, 0, fs, buf') := by
  have hnot : ¬ (vp.type = S_IFIFO ∨ vp.type = S_IFCHR ∨ vp.type = S_IFBLK) := by
    rw [htype]
    decide
  simp only [requestIo, hnot, if_false]

/-- A write never changes the vnode of a created file.  The size of the inode grows with it. -/
theorem InvWith.write (henv : FsOk env) (h : InvWith sz st) {fd n : Nat} {f : Filp}
    {buf buf' : Bytes} {r : Int} (hvp : st.vnodes f.filp_vno = some vp) {rip : Inode}
    (hrip : st.fs.inodes vp.v_inode_nr = some rip)
    (hrw : readWrite env st .writing fd f vp buf n = some (r, st', buf')) :
    InvWith sz st' ∧ st'.vnodes f.filp_vno = some vp ∧
      (0 ≤ r → ∃ rip', st'.fs.inodes vp.v_inode_nr = some rip' ∧
        (rip'.i_size : Int) = max (rip.i_size : Int) (startPos .writing f vp + n)) := by
  have hcreated := h _ vp hvp
  simp only [readWrite] at hrw
  by_cases hbig : SSIZE_MAX < n
  · simp only [hbig, if_true] at hrw
    cases hrw
    exact ⟨h, hvp, fun hr => absurd hr (by decide)⟩
  · simp only [hbig, if_false] at hrw
    rcases Option.map_eq_some_iff.1 hrw with ⟨⟨r₁, position, cumIo, fs, buf₁⟩, hio, hend⟩
    -- The type in the vnode is neither that of a regular file nor that of a directory.
    have hgrow : ¬ ((vp.type = S_IFREG ∨ vp.type = S_IFDIR) ∧ vp.v_size < position) := by
      rw [hcreated.type]
      rintro ⟨htype, _⟩
      exact absurd htype (by decide)
    simp only [true_and, hgrow, if_false] at hend
    cases hend
    rw [requestIo_created hcreated.type] at hio
    rcases Option.map_eq_some_iff.1 hio with ⟨⟨reply, fs', buf₂⟩, hfs, hreply⟩
    have hfile : rip.IsFile := by
      rcases hcreated.inode with ⟨rip₀, hrip₀, hfile⟩
      rw [hrip] at hrip₀
      cases hrip₀
      exact hfile
    rcases Mfs.fsReadwrite_writing rfl hrip hfile hfs with ⟨⟨rip', hrip', hfile', hsize⟩, hother⟩
    have hparts : reply.r = r₁ ∧ fs' = fs := by
      simp only at hreply
      split at hreply <;> cases hreply <;> exact ⟨rfl, rfl⟩
    rcases hparts with ⟨hr₁, rfl⟩
    have hkeeps : KeepsFiles st.fs fs' := by
      intro j rip₀ hrip₀ hfile₀
      by_cases hj : j = vp.v_inode_nr
      · exact ⟨rip', hj ▸ hrip', hfile'⟩
      · exact ⟨rip₀, (hother j hj).trans hrip₀, hfile₀⟩
    refine ⟨h.update hkeeps rfl (hcreated.mono hkeeps), Function.update_self .., ?_⟩
    intro hr
    have hresult := Mfs.fsReadwrite_result (henv.copy n) hfs
    have hok : reply.r = OK := by
      by_cases hr₁' : r₁ = OK
      · exact hr₁.trans hr₁'
      · rw [if_neg hr₁'] at hr
        rw [hr₁] at hresult ⊢
        exact Int.le_antisymm hresult hr
    exact ⟨rip', hrip', (hsize hok).2⟩

/-- A read changes the position of the descriptor only. -/
theorem InvWith.read (h : InvWith sz st) {fd n : Nat} {f : Filp} {buf buf' : Bytes} {r : Int}
    (hvp : st.vnodes f.filp_vno = some vp)
    (hrw : readWrite env st .reading fd f vp buf n = some (r, st', buf')) : InvWith sz st' := by
  have hcreated := h _ vp hvp
  simp only [readWrite] at hrw
  by_cases hbig : SSIZE_MAX < n
  · simp only [hbig, if_true] at hrw
    cases hrw
    exact h
  · simp only [hbig, if_false] at hrw
    rcases Option.map_eq_some_iff.1 hrw with ⟨⟨r₁, position, cumIo, fs, buf₁⟩, hio, hend⟩
    simp only [reduceCtorEq, false_and, if_false] at hend
    cases hend
    rw [requestIo_created hcreated.type] at hio
    rcases Option.map_eq_some_iff.1 hio with ⟨⟨reply, fs', buf₂⟩, hfs, hreply⟩
    have hsame := Mfs.fsReadwrite_reading rfl hfs
    have hfs' : fs' = fs := by
      simp only at hreply
      split at hreply <;> cases hreply <;> rfl
    have hunchanged : fs = st.fs := hfs'.symm.trans hsame
    subst hunchanged
    exact h.update (.refl _) rfl hcreated

/-- A read or write call is refused, has nothing to do, or reaches `read_write`. -/
theorem rw_cases {rwFlag : RwFlag} {fd n : Nat} {buf buf' : Bytes} {r : Int}
    (h : actualReadWritePeek env st rwFlag fd buf n = some (r, st', buf')) :
    (st' = st ∧ (r < 0 ∨ n = 0)) ∨
      ∃ f vp, n ≠ 0 ∧ st.filps fd = some f ∧ st.vnodes f.filp_vno = some vp ∧
        readWrite env st rwFlag fd f vp buf n = some (r, st', buf') := by
  have hbadf : EBADF < 0 := by decide
  simp only [actualReadWritePeek] at h
  generalize (if rwFlag = .writing then W_BIT else R_BIT) = access at h
  cases hf : st.filps fd with
  | none =>
      simp only [hf] at h
      cases h
      exact .inl ⟨rfl, .inl hbadf⟩
  | some f =>
      simp only [hf] at h
      by_cases hmode : f.filp_mode &&& access = 0
      · simp only [hmode, if_true] at h
        cases h
        exact .inl ⟨rfl, .inl hbadf⟩
      · by_cases hn : n = 0
        · simp only [hmode, hn, if_false, if_true] at h
          cases h
          exact .inl ⟨rfl, .inr hn⟩
        · simp only [hmode, hn, if_false] at h
          rcases Option.bind_eq_some_iff.1 h with ⟨vp, hvp, hrest⟩
          exact .inr ⟨f, vp, hn, rfl, hvp, hrest⟩

/-- What `common_open`, `read_write` and `actual_lseek` keep, a system call keeps. -/
theorem call_keeps {P : State → Prop} {c : Call} {r : Int} (h : P st)
    (hopen : ∀ path oflags omode umask,
      commonOpen env st path oflags omode umask = some (r, st') → P st')
    (hrw : ∀ rwFlag fd f vp buf n buf', rwFlag = .reading ∨ rwFlag = .writing →
      st.filps fd = some f → st.vnodes f.filp_vno = some vp →
      readWrite env st rwFlag fd f vp buf n = some (r, st', buf') → P st')
    (hseek : ∀ fd whence offset, c = .lseek fd whence offset →
      actualLseek env st fd whence offset = some (r, st') → P st')
    (hcall : call env st c = some (r, st')) : P st' := by
  have hboth : ∀ {rwFlag fd buf n buf'}, rwFlag = .reading ∨ rwFlag = .writing →
      actualReadWritePeek env st rwFlag fd buf n = some (r, st', buf') → P st' := by
    intro rwFlag fd buf n buf' hflag hpeek
    rcases rw_cases hpeek with ⟨rfl, _⟩ | ⟨f, vp, _, hf, hvp, hrest⟩
    · exact h
    · exact hrw _ _ _ _ _ _ _ hflag hf hvp hrest
  cases c with
  | creat path oflags omode umask =>
      simp only [Vfs.call] at hcall
      split at hcall
      · cases hcall
        exact h
      · exact hopen _ _ _ _ hcall
  | read fd buf nbytes =>
      rcases Option.map_eq_some_iff.1 hcall with ⟨⟨r₁, st₁, buf₁⟩, hpeek, hend⟩
      cases hend
      exact hboth (.inl rfl) hpeek
  | write fd buf nbytes =>
      rcases Option.map_eq_some_iff.1 hcall with ⟨⟨r₁, st₁, buf₁⟩, hpeek, hend⟩
      cases hend
      exact hboth (.inr rfl) hpeek
  | lseek fd whence offset => exact hseek fd whence offset rfl hcall

/-- One system call keeps the invariant. -/
theorem InvWith.call (henv : FsOk env) (h0 : sz 0) (h : InvWith sz st) {c : Call} {r : Int}
    (hcall : call env st c = some (r, st')) : InvWith sz st' := by
  refine call_keeps h ?_ ?_ ?_ hcall
  · intro path oflags omode umask hopen
    exact h.commonOpen henv h0 hopen
  · intro rwFlag fd f vp buf n buf' hflag _ hvp hrw
    rcases hflag with rfl | rfl
    · exact h.read hvp hrw
    · rcases (h _ vp hvp).inode with ⟨rip, hrip, _⟩
      exact (h.write henv hvp hrip hrw).1
  · intro fd whence offset _ hseek
    exact h.actualLseek hseek

/-- Every reachable state. -/
theorem InvWith.calls (henv : FsOk env) (h0 : sz 0) (h : InvWith sz st) {cs : List Call}
    (hcalls : calls env st cs = some st') : InvWith sz st' := by
  refine Lib.foldlM_keeps (P := InvWith sz) ?_ hcalls h
  intro st c st' h hstep
  rcases Option.map_eq_some_iff.1 hstep with ⟨⟨r, st₁⟩, hcall, rfl⟩
  exact h.call henv h0 hcall

end Steps

/-- The size in the vnode is the size in the inode. -/
def SizesAgree (st : State) (slot : Nat) : Prop :=
  ∃ vp rip, st.vnodes slot = some vp ∧ st.fs.inodes vp.v_inode_nr = some rip ∧
    vp.v_size = (rip.i_size : Int)

theorem sizesAgree_iff {st : State} {slot : Nat} {vp : Vnode} {rip : Inode}
    (hvp : st.vnodes slot = some vp) (hrip : st.fs.inodes vp.v_inode_nr = some rip) :
    SizesAgree st slot ↔ vp.v_size = (rip.i_size : Int) := by
  constructor
  · rintro ⟨vp', rip', hvp', hrip', hagree⟩
    rw [hvp] at hvp'
    cases hvp'
    rw [hrip] at hrip'
    cases hrip'
    exact hagree
  · intro hagree
    exact ⟨vp, rip, hvp, hrip, hagree⟩

/-- The first free slot of a table. -/
def firstFree {α : Type} (table : Nat → Option α) : Option Nat :=
  (List.range 16).find? fun i => (table i).isNone

/-- New files get the first free inode, and all calls to other servers are granted. -/
def plainEnv : Env where
  mfs := Mfs.firstFit
  sb := Mfs.smallFs
  pathError := fun _ _ => none
  getFd := fun st =>
    match firstFree st.filps with
    | none => .error ENFILE
    | some fd => .ok fd
  getFreeVnode := fun st => firstFree st.vnodes
  forbidden := fun _ _ => OK
  reqCreate := fun srv _ mode =>
    match firstFree srv.inodes with
    | none => .error ENFILE
    | some ino =>
        .ok ({ inode_nr := ino, fmode := mode, fsize := 0 },
          { srv with
            inodes := Function.update srv.inodes ino
              (some { i_mode := mode, i_size := 0, i_zone := zeros, i_zsearch := 0 }) })
  reqFtrunc := fun srv ino len =>
    if len < 0 then (Mfs.EINVAL, srv)
    else
      (OK,
        { srv with
          inodes := fun j =>
            if j = ino then (srv.inodes j).map fun rip => { rip with i_size := len.toNat }
            else srv.inodes j })
  reqInhibread := fun _ => OK
  grant := Mfs.exactGrant
  openSpecial := fun _ _ => OK
  specialIo := fun _ _ position _ => (OK, position, 0)

theorem plainEnv_ok : FsOk plainEnv where
  create := by
    intro srv path mode res srv' h
    simp only [plainEnv] at h
    cases hfree : firstFree srv.inodes with
    | none => simp [hfree] at h
    | some ino =>
        simp only [hfree] at h
        cases h
        refine ⟨rfl, rfl, ⟨_, Function.update_self .., rfl, rfl⟩, ?_⟩
        intro j hj
        exact Function.update_of_ne hj ..
  truncate := by
    intro srv ino len r srv' h j rip hrip
    simp only [plainEnv] at h
    by_cases hlen : len < 0
    · simp only [hlen, if_true] at h
      cases h
      exact ⟨rip, hrip, rfl, .inl rfl⟩
    · simp only [hlen, if_false] at h
      cases h
      by_cases hj : j = ino
      · subst hj
        refine ⟨{ rip with i_size := len.toNat }, by simp [hrip], rfl, .inr ⟨rfl, ?_⟩⟩
        show ((len.toNat : Nat) : Int) = len
        omega
      · exact ⟨rip, by simp [hj, hrip], rfl, .inl rfl⟩
  copy := by
    intro n off len
    simp only [plainEnv, Mfs.exactGrant]
    split <;> decide

/-- A file system without inodes. -/
def emptyServer : Server :=
  { inodes := fun _ => none, disk := fun _ _ => zeros, used := fun _ => false }

/-- Create a file for reading and writing. -/
def createFile : List Call :=
  [.creat 7 (O_CREAT ||| 2) 0o644 0o7777]

/-- A descriptor with its vnode and inode. -/
def sizesOf (st : State) (fd : Nat) : Option (Filp × Vnode × Nat) :=
  (st.filps fd).bind fun f =>
    (st.vnodes f.filp_vno).bind fun vp =>
      (st.fs.inodes vp.v_inode_nr).map fun rip => (f, vp, rip.i_size)

theorem sizesOf_eq_some {st : State} {fd size : Nat} {f : Filp} {vp : Vnode}
    (h : sizesOf st fd = some (f, vp, size)) :
    st.filps fd = some f ∧ st.vnodes f.filp_vno = some vp ∧
      ∃ rip, st.fs.inodes vp.v_inode_nr = some rip ∧ rip.i_size = size := by
  rcases Option.bind_eq_some_iff.1 h with ⟨f', hf, h⟩
  rcases Option.bind_eq_some_iff.1 h with ⟨vp', hvp, h⟩
  rcases Option.map_eq_some_iff.1 h with ⟨rip, hrip, h⟩
  cases h
  exact ⟨hf, hvp, rip, hrip, rfl⟩

end Vfs
end OsLab
