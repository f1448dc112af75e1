import OsLab.Lib.Runs
import OsLab.Vfs.Size

/-!
# Truncate — the inline area of immediate files

`do_truncate` and `do_ftruncate` of `vfs/link.c`.  Both end in `truncate_vnode`, which takes any
length for an immediate file.  The file system server sets the size and leaves the type, so an
immediate file can become longer than the 32 bytes that the write path allows, and longer than the
`i_zone` that reads and the conversion copy it from.

`immediates_fit_iff` says that this is the only way to get there: in a run the immediate files stay
within their inline area if and only if no call of the run makes one longer than 32 bytes.
-/

namespace OsLab
namespace Vfs

open OsLab.Lib
open OsLab.Mfs (Server Inode OK EINVAL I_IMMEDIATE I_ZONE_BYTES)

section Functions

variable (env : Env)

/-- `do_truncate` -/
def doTruncate (st : State) (path : Nat) (length : Int) : Option (Int × State) :=
  if length < 0 then some (EINVAL, st)
  else
    match env.pathError st path, st.names path with
    | some r, _ => some (r, st)
    | none, none => some (ENOENT, st)
    | none, some slot =>
        (st.vnodes slot).map fun vp =>
          let r := env.forbidden vp W_BIT
          if r ≠ OK then (r, st)
          -- A regular file that keeps its size keeps its times as well.
          else if vp.type = S_IFREG ∧ vp.v_size = length then (OK, st)
          else truncateVnode env st slot vp length

/-- `do_ftruncate` -/
def doFtruncate (st : State) (fd : Nat) (length : Int) : Option (Int × State) :=
  if length < 0 then some (EINVAL, st)
  else
    match st.filps fd with
    | none => some (EBADF, st)
    | some f =>
        (st.vnodes f.filp_vno).map fun vp =>
          if f.filp_mode &&& W_BIT = 0 then (EBADF, st)
          else if vp.type = S_IFREG ∧ vp.v_size = length then (OK, st)
          else truncateVnode env st f.filp_vno vp length

/-- `do_open` refuses a call with `O_CREAT`. -/
def doOpen (st : State) (path oflags umask : Nat) : Option (Int × State) :=
  if oflags &&& O_CREAT ≠ 0 then some (EINVAL, st)
  else commonOpen env st path oflags 0 umask

/-- The system calls on files, truncation included. -/
inductive FileCall
  | file (c : Call)
  | openFile (path oflags umask : Nat)
  | truncate (path : Nat) (length : Int)
  | ftruncate (fd : Nat) (length : Int)

def fileCall (st : State) : FileCall → Option (Int × State)
  | .file c => call env st c
  | .openFile path oflags umask => doOpen env st path oflags umask
  | .truncate path length => doTruncate env st path length
  | .ftruncate fd length => doFtruncate env st fd length

/-- The state after a call. -/
def fileStep (st : State) (c : FileCall) : Option State :=
  (fileCall env st c).map Prod.snd

/-! ## Truncations that are too long -/

/-- The vnode for which a call gets to `truncate_vnode`, and the length it asks for. -/
def truncTarget (st : State) : FileCall → Option (Nat × Vnode × Int)
  | .file _ => none
  | .openFile _ _ _ => none
  | .truncate path length =>
      if length < 0 ∨ (env.pathError st path).isSome then none
      else
        (st.names path).bind fun slot =>
          (st.vnodes slot).bind fun vp =>
            if env.forbidden vp W_BIT ≠ OK ∨ vp.type = S_IFREG ∧ vp.v_size = length then none
            else some (slot, vp, length)
  | .ftruncate fd length =>
      if length < 0 then none
      else
        (st.filps fd).bind fun f =>
          (st.vnodes f.filp_vno).bind fun vp =>
            if f.filp_mode &&& W_BIT = 0 ∨ vp.type = S_IFREG ∧ vp.v_size = length then none
            else some (f.filp_vno, vp, length)

/-- The call asks for a length beyond 32, and within what the file system allows, of a file that is
immediate. -/
def Oversized (st : State) (c : FileCall) : Prop :=
  ∃ slot vp length rip, truncTarget env st c = some (slot, vp, length) ∧
    st.fs.inodes vp.v_inode_nr = some rip ∧ rip.type = I_IMMEDIATE ∧
    32 < length ∧ length ≤ env.sb.s_max_size

end Functions

/-- Every immediate file is within the 32 bytes of the write path, and so within `i_zone` and the
local buffers of that size. -/
def ImmediatesFit (st : State) : Prop :=
  ∀ slot vp rip, st.vnodes slot = some vp → st.fs.inodes vp.v_inode_nr = some rip →
    rip.type = I_IMMEDIATE → rip.i_size ≤ 32 ∧ rip.i_size ≤ I_ZONE_BYTES

/-- `req_ftrunc` sets the size to any length up to `s_max_size`, keeps the type, and refuses longer
ones. -/
structure TruncOk (env : Env) : Prop where
  sets : ∀ srv ino (len : Int) rip, srv.inodes ino = some rip → 0 ≤ len → len ≤ env.sb.s_max_size →
    ∃ srv' rip', env.reqFtrunc srv ino len = (OK, srv') ∧ srv'.inodes ino = some rip' ∧
      rip'.i_mode = rip.i_mode ∧ (rip'.i_size : Int) = len
  refuses : ∀ srv ino len, (env.sb.s_max_size : Int) < len →
    ∃ r, env.reqFtrunc srv ino len = (r, srv) ∧ r ≠ OK

section Steps

variable {env : Env} {st st' : State} {vp : Vnode} {slot : Nat} {c : FileCall} {r : Int}

/-- The invariant without the sizes in the vnodes. -/
abbrev FileInv (st : State) : Prop :=
  InvWith (fun _ => True) st

theorem InvWith.immediatesFit (h : FileInv st) : ImmediatesFit st := by
  intro slot vp rip hvp hrip himm
  rcases (h slot vp hvp).inode with ⟨rip', hrip', hfile⟩
  rw [hrip] at hrip'
  cases hrip'
  have hle := hfile.size_le himm
  exact ⟨hle, hle.trans (by decide)⟩

/-! ## One call -/

/-- A call with a target truncates it, to a length that is not negative. -/
theorem fileCall_target {length : Int} (h : truncTarget env st c = some (slot, vp, length)) :
    st.vnodes slot = some vp ∧ 0 ≤ length ∧
      fileCall env st c = some (truncateVnode env st slot vp length) := by
  cases c with
  | file c => cases h
  | openFile path oflags umask => cases h
  | truncate path len =>
      simp only [truncTarget] at h
      split at h
      · cases h
      · -- Every test that `do_truncate` makes before `truncate_vnode` has passed.
        rename_i hnot
        rw [not_or] at hnot
        rcases Option.bind_eq_some_iff.1 h with ⟨slot', hname, h⟩
        rcases Option.bind_eq_some_iff.1 h with ⟨vp', hvp, h⟩
        split at h
        · cases h
        · rename_i hgo
          rw [not_or, not_not] at hgo
          cases h
          have hpath : env.pathError st path = none := by simpa using hnot.2
          refine ⟨hvp, Int.not_lt.1 hnot.1, ?_⟩
          simp [fileCall, doTruncate, hnot.1, hpath, hname, hvp, hgo.1, hgo.2]
  | ftruncate fd len =>
      simp only [truncTarget] at h
      split at h
      · cases h
      · rename_i hneg
        rcases Option.bind_eq_some_iff.1 h with ⟨f, hf, h⟩
        rcases Option.bind_eq_some_iff.1 h with ⟨vp', hvp, h⟩
        split at h
        · cases h
        · rename_i hgo
          rw [not_or] at hgo
          cases h
          refine ⟨hvp, Int.not_lt.1 hneg, ?_⟩
          simp [fileCall, doFtruncate, hneg, hf, hvp, hgo.1, hgo.2]

/-- A truncation without a target is refused or has nothing to do. -/
theorem doTruncate_no_target {path : Nat} {length : Int}
    (h : truncTarget env st (.truncate path length) = none)
    (hcall : doTruncate env st path length = some (r, st')) : st' = st := by
  by_cases hneg : length < 0
  · simp only [doTruncate, hneg, if_true] at hcall
    cases hcall
    rfl
  · simp only [doTruncate, hneg, if_false] at hcall
    cases herror : env.pathError st path with
    | some r' =>
        simp only [herror] at hcall
        cases hcall
        rfl
    | none =>
        cases hname : st.names path with
        | none =>
            simp only [herror, hname] at hcall
            cases hcall
            rfl
        | some slot =>
            simp only [herror, hname] at hcall
            rcases Option.map_eq_some_iff.1 hcall with ⟨vp, hvp, hrest⟩
            simp only [truncTarget, hneg, herror, hname, hvp, Option.bind_some] at h
            split at hrest
            · cases hrest
              rfl
            · split at hrest
              · cases hrest
                rfl
              · rename_i hok hsame
                -- With a file, write permission and another size there would be a target.
                simp [hok, hsame] at h

theorem doFtruncate_no_target {fd : Nat} {length : Int}
    (h : truncTarget env st (.ftruncate fd length) = none)
    (hcall : doFtruncate env st fd length = some (r, st')) : st' = st := by
  by_cases hneg : length < 0
  · simp only [doFtruncate, hneg, if_true] at hcall
    cases hcall
    rfl
  · simp only [doFtruncate, hneg, if_false] at hcall
    cases hf : st.filps fd with
    | none =>
        simp only [hf] at hcall
        cases hcall
        rfl
    | some f =>
        simp only [hf] at hcall
        rcases Option.map_eq_some_iff.1 hcall with ⟨vp, hvp, hrest⟩
        simp only [truncTarget, hneg, hf, hvp, Option.bind_some] at h
        split at hrest
        · cases hrest
          rfl
        · split at hrest
          · cases hrest
            rfl
          · rename_i hmode hsame
            simp [hmode, hsame] at h

/-- `truncate_vnode` with a length that does not make an immediate file too long. -/
theorem InvWith.truncateFile (henv : FsOk env) (htrunc : TruncOk env) (h : FileInv st)
    (htarget : truncTarget env st c = some (slot, vp, r)) (hsmall : ¬ Oversized env st c) :
    FileInv (Vfs.truncateVnode env st slot vp r).2 := by
  rcases fileCall_target htarget with ⟨hvp, _, _⟩
  by_cases hmax : r ≤ env.sb.s_max_size
  · -- Within `s_max_size` the length is set, so an immediate file has to allow it.
    refine h.truncateVnode henv hvp trivial ?_
    intro rip hrip himm
    by_contra hlong
    exact hsmall ⟨slot, vp, r, rip, htarget, hrip, himm, Int.not_le.1 hlong, hmax⟩
  · -- The file system refuses, and nothing changes.
    rcases htrunc.refuses st.fs vp.v_inode_nr r (Int.not_le.1 hmax) with ⟨e, hfs, hne⟩
    simp only [Vfs.truncateVnode, hfs, hne, if_false]
    split
    · exact h
    · exact h

/-- What the calls without truncation, `common_open` and the truncation of the target keep, every
call keeps. -/
theorem fileCall_keeps {P : State → Prop} (h : P st)
    (hfile : ∀ c', c = .file c' → call env st c' = some (r, st') → P st')
    (hopen : ∀ path oflags umask, commonOpen env st path oflags 0 umask = some (r, st') → P st')
    (htruncate : ∀ slot vp length, truncTarget env st c = some (slot, vp, length) →
      P (truncateVnode env st slot vp length).2)
    (hcall : fileCall env st c = some (r, st')) : P st' := by
  cases htarget : truncTarget env st c with
  | some target =>
      rcases target with ⟨slot, vp, length⟩
      rw [(fileCall_target htarget).2.2] at hcall
      have hst : (truncateVnode env st slot vp length).2 = st' :=
        congrArg Prod.snd (Option.some.inj hcall)
      exact hst ▸ htruncate slot vp length htarget
  | none =>
      cases c with
      | file c => exact hfile c rfl hcall
      | openFile path oflags umask =>
          simp only [fileCall, doOpen] at hcall
          split at hcall
          · cases hcall
            exact h
          · exact hopen path oflags umask hcall
      | truncate path length => exact doTruncate_no_target htarget hcall ▸ h
      | ftruncate fd length => exact doFtruncate_no_target htarget hcall ▸ h

theorem InvWith.fileCall (henv : FsOk env) (htrunc : TruncOk env) (h : FileInv st)
    (hsmall : ¬ Oversized env st c) (hcall : fileCall env st c = some (r, st')) : FileInv st' := by
  refine fileCall_keeps h ?_ ?_ ?_ hcall
  · intro c' _ hcall
    exact h.call henv trivial hcall
  · intro path oflags umask hopen
    exact h.commonOpen henv trivial hopen
  · intro slot vp length htarget
    exact h.truncateFile henv htrunc htarget hsmall

/-- A call that is too long succeeds, and the immediate file is as long as it asked. -/
theorem InvWith.oversized (htrunc : TruncOk env) (h : FileInv st) (hbig : Oversized env st c) :
    ∃ r st', Vfs.fileCall env st c = some (r, st') ∧ ¬ ImmediatesFit st' := by
  rcases hbig with ⟨slot, vp, length, rip, htarget, hrip, himm, hlong, hmax⟩
  rcases fileCall_target htarget with ⟨hvp, hpos, hcall⟩
  rcases htrunc.sets st.fs vp.v_inode_nr length rip hrip hpos hmax with
    ⟨fs', rip', hfs, hrip', hmode, hsize⟩
  have htype := (h slot vp hvp).type
  -- The vnode of a file made by `common_open` passes the test of the type.
  have hnot : ¬ (vp.type ≠ S_IFIFO ∧ vp.type ≠ S_IFREG ∧ vp.type ≠ S_IFIMM) := by
    simp [htype]
  have hgo : Vfs.truncateVnode env st slot vp length =
      (OK,
        { st with
          fs := fs'
          vnodes := Function.update st.vnodes slot (some { vp with v_size := length }) }) := by
    simp only [Vfs.truncateVnode, hnot, if_false, hfs, if_true]
  rw [hgo] at hcall
  refine ⟨_, _, hcall, ?_⟩
  intro hfit
  -- The type is still immediate, and the size is the one that was asked for.
  have himm' : rip'.type = I_IMMEDIATE := by
    rw [Inode.type, hmode]
    exact himm
  have hle := (hfit slot { vp with v_size := length } rip' (Function.update_self ..) hrip' himm').1
  omega

end Steps

/-- In every run of calls on files that `common_open` creates, all immediate files stay within 32
bytes in every state reached if and only if no truncation of the run asks for more of a file that is
immediate. -/
theorem immediates_fit_iff {env : Env} (henv : FsOk env) (htrunc : TruncOk env) (fs : Server)
    (cs : List FileCall) :
    Along (fileStep env) ImmediatesFit (initial fs) cs ↔
      Guarded (fileStep env) (fun st c => ¬ Oversized env st c) (initial fs) cs := by
  have hinit : FileInv (initial fs) := initial_inv fs
  refine along_iff_guarded (fun _ h => InvWith.immediatesFit h) ?_ ?_ cs _ hinit
  · intro st c st' h hsmall hstep
    rcases Option.map_eq_some_iff.1 hstep with ⟨⟨r, st₁⟩, hcall, rfl⟩
    exact InvWith.fileCall henv htrunc h hsmall hcall
  · intro st c h hbig
    rcases InvWith.oversized htrunc h (not_not.1 hbig) with ⟨r, st', hcall, hnot⟩
    exact ⟨st', by rw [fileStep, hcall]; rfl, hnot⟩

/-- The servers of `plainEnv`, with a file system that refuses to make files too long. -/
def boundedEnv : Env :=
  { plainEnv with
    reqFtrunc := fun srv ino len =>
      if (plainEnv.sb.s_max_size : Int) < len then (Mfs.EFBIG, srv)
      else plainEnv.reqFtrunc srv ino len }

theorem boundedEnv_ok : FsOk boundedEnv where
  create := plainEnv_ok.create
  truncate := by
    intro srv ino len r srv' h
    simp only [boundedEnv] at h
    split at h
    · cases h
      intro j rip hrip
      exact ⟨rip, hrip, rfl, .inl rfl⟩
    · exact plainEnv_ok.truncate srv ino len r srv' h
  copy := plainEnv_ok.copy

theorem boundedEnv_trunc : TruncOk boundedEnv where
  sets := by
    intro srv ino len rip hrip hpos hmax
    have hneg : ¬ len < 0 := Int.not_lt.2 hpos
    have hmax' : ¬ (plainEnv.sb.s_max_size : Int) < len := Int.not_lt.2 hmax
    have hset : boundedEnv.reqFtrunc srv ino len = plainEnv.reqFtrunc srv ino len := if_neg hmax'
    rw [hset]
    refine ⟨_, { rip with i_size := len.toNat }, if_neg hneg, by simp [hrip], rfl, ?_⟩
    exact Int.toNat_of_nonneg hpos
  refuses := by
    intro srv ino len hmax
    have hmax' : (plainEnv.sb.s_max_size : Int) < len := hmax
    exact ⟨Mfs.EFBIG, by simp only [boundedEnv, hmax', if_true], by decide⟩

/-- Create a file and make it `length` bytes long. -/
def createAndTruncate (length : Int) : List FileCall :=
  createFile.map .file ++ [.ftruncate 0 length]

theorem immediates_fit_iff_twenty :
    Along (fileStep boundedEnv) ImmediatesFit (initial emptyServer) (createAndTruncate 20) ↔
      Guarded (fileStep boundedEnv) (fun st c => ¬ Oversized boundedEnv st c) (initial emptyServer)
        (createAndTruncate 20) :=
  immediates_fit_iff boundedEnv_ok boundedEnv_trunc emptyServer (createAndTruncate 20)

/-- The type and the size of the inode behind the vnode in `slot`. -/
def inodeOf (st : State) (slot : Nat) : Option (Nat × Nat) :=
  (st.vnodes slot).bind fun vp =>
    (st.fs.inodes vp.v_inode_nr).map fun rip => (rip.type, rip.i_size)

/-- A new file is made 100 bytes long by its descriptor.  It is still immediate, and a read of it
runs past `i_zone`. -/
theorem ftruncate_beyond_inline :
    ¬ Along (fileStep boundedEnv) ImmediatesFit (initial emptyServer) (createAndTruncate 100) ∧
      ∃ st₁ st₂,
        call boundedEnv (initial emptyServer) (.creat 7 (O_CREAT ||| 2) 0o644 0o7777) =
          some (0, st₁) ∧
        doFtruncate boundedEnv st₁ 0 100 = some (OK, st₂) ∧
        call boundedEnv st₂ (.read 0 zeros 1) = none := by
  have hresult : ((call boundedEnv (initial emptyServer)
      (.creat 7 (O_CREAT ||| 2) 0o644 0o7777)).bind fun o₁ =>
        (doFtruncate boundedEnv o₁.2 0 100).bind fun o₂ =>
          (inodeOf o₂.2 0).map fun x =>
            (o₁.1, o₂.1, x, (call boundedEnv o₂.2 (.read 0 zeros 1)).isNone)) =
        some (0, OK, (I_IMMEDIATE, 100), true) := by
    decide +kernel
  rcases Option.bind_eq_some_iff.1 hresult with ⟨⟨r₁, st₁⟩, hcreat, hresult⟩
  rcases Option.bind_eq_some_iff.1 hresult with ⟨⟨r₂, st₂⟩, htrunc, hresult⟩
  rcases Option.map_eq_some_iff.1 hresult with ⟨x, hinode, hend⟩
  simp only [Prod.mk.injEq, Option.isNone_iff_eq_none] at hend
  rcases hend with ⟨rfl, rfl, rfl, hread⟩
  refine ⟨?_, st₁, st₂, hcreat, htrunc, hread⟩
  rcases Option.bind_eq_some_iff.1 hinode with ⟨vp, hvp, hinode⟩
  rcases Option.map_eq_some_iff.1 hinode with ⟨rip, hrip, hboth⟩
  have hboth' := Prod.mk.inj hboth
  intro halong
  have hstep₁ : fileStep boundedEnv (initial emptyServer)
      (.file (.creat 7 (O_CREAT ||| 2) 0o644 0o7777)) = some st₁ := by
    rw [fileStep, fileCall, hcreat]
    rfl
  have hstep₂ : fileStep boundedEnv st₁ (.ftruncate 0 100) = some st₂ := by
    rw [fileStep, fileCall, htrunc]
    rfl
  have hlast : ImmediatesFit st₂ := (halong.2 _ hstep₁).2 _ hstep₂
  have hle := (hlast 0 vp rip hvp hrip hboth'.1).1
  rw [hboth'.2] at hle
  exact absurd hle (by decide)

end Vfs
end OsLab
