import OsLab.Vfs.Seek

/-!
# Agreement — the two sizes of a file

`read_write` keeps `v_size` up to date for regular files and directories only, and the vnode of a created
file has the immediate type for good.  So the size in the vnode is 0 whatever is written.

`vfs_size_agreement` says when a successful write leaves the two sizes equal.  A write that is served
inline from a negative position succeeds as well: it stores in front of `i_zone`, into other fields of the
inode, and that is no agreement whatever it stores there.
-/

namespace OsLab
namespace Vfs

open OsLab.Lib
open OsLab.Mfs (Server Inode)

section Writes

variable (env : Env) (st : State) (fd : Nat) (buf : Bytes) (n : Nat)

/-- The write is served inline, and it starts in front of `i_zone`. -/
def StoresInFront : Prop :=
  ∃ req, ServesInline env st (.file (.write fd buf n)) req ∧ req.position < 0

/-- The write returns no error.  In front of `i_zone` the source returns the count as well. -/
def Succeeds : Prop :=
  (∃ r st', call env st (.write fd buf n) = some (r, st') ∧ 0 ≤ r) ∨ StoresInFront env st fd buf n

/-- There is a state after the write, and in it the sizes agree. -/
def AgreesAfter (slot : Nat) : Prop :=
  ∃ r st', call env st (.write fd buf n) = some (r, st') ∧ SizesAgree st' slot

end Writes

section Reachable

variable {env : Env} {st : State} {fd n : Nat} {buf : Bytes}

theorem StoresInFront.call_eq_none (h : StoresInFront env st fd buf n) :
    call env st (.write fd buf n) = none := by
  rcases h with ⟨req, hinline, hneg⟩
  exact Option.map_eq_none_iff.1 (hinline.inFront hneg)

/-- The sizes after a write that goes on. -/
theorem sizesAgree_after_write (henv : FsOk env) (hinv : InvWith (fun size => size = 0) st) {f : Filp}
    {vp : Vnode} {rip : Inode} (hf : st.filps fd = some f) (hvp : st.vnodes f.filp_vno = some vp)
    (hrip : st.fs.inodes vp.v_inode_nr = some rip) {r : Int} {st' : State}
    (hcall : call env st (.write fd buf n) = some (r, st')) (hr : 0 ≤ r) :
    SizesAgree st' f.filp_vno ↔ rip.i_size = 0 ∧ (n = 0 ∨ startPos .writing f vp + n ≤ 0) := by
  have hsize : vp.v_size = 0 := (hinv.inv _ vp hvp).size
  rcases Option.map_eq_some_iff.1 hcall with ⟨⟨r₁, st₁, buf₁⟩, hrw, hend⟩
  cases hend
  rcases rw_cases hrw with ⟨rfl, hnothing⟩ | ⟨f', vp', hn, hf', hvp', hrest⟩
  · -- Nothing was written.
    have hn : n = 0 := hnothing.resolve_left (Int.not_lt.2 hr)
    rw [sizesAgree_iff hvp hrip, hsize]
    omega
  · rw [hf] at hf'
    cases hf'
    rw [hvp] at hvp'
    cases hvp'
    rcases hinv.write henv hvp hrip hrest with ⟨_, hvp₁, hgrown⟩
    rcases hgrown hr with ⟨rip', hrip', hsize'⟩
    rw [sizesAgree_iff hvp₁ hrip', hsize, hsize']
    omega

end Reachable

/-- After a successful write the sizes agree if and only if the file was empty and the write did not
make it longer, and did not store in front of `i_zone`.  A write with `O_APPEND` starts at the end of the
file, and `SEEK_END` seeks from it, for an empty file only. -/
theorem vfs_size_agreement {env : Env} (henv : FsOk env) {fs : Server} {cs : List Call} {st : State}
    (hrun : calls env (initial fs) cs = some st) {fd : Nat} {f : Filp} {vp : Vnode} {rip : Inode}
    (hf : st.filps fd = some f) (hvp : st.vnodes f.filp_vno = some vp)
    (hrip : st.fs.inodes vp.v_inode_nr = some rip) :
    (∀ (buf : Bytes) (n : Nat), Succeeds env st fd buf n →
      (AgreesAfter env st fd buf n f.filp_vno ↔
        rip.i_size = 0 ∧ (n = 0 ∨ startPos .writing f vp + n ≤ 0 ∧ ¬ StoresInFront env st fd buf n))) ∧
      (f.filp_flags &&& O_APPEND ≠ 0 →
        (startPos .writing f vp = (rip.i_size : Int) ↔ rip.i_size = 0)) ∧
      (seekBase .seekEnd f vp = some (rip.i_size : Int) ↔ rip.i_size = 0) := by
  have hinv : InvWith (fun size => size = 0) st := (initial_inv fs).calls henv rfl hrun
  have hsize : vp.v_size = 0 := (hinv.inv _ vp hvp).size
  refine ⟨?_, ?_, ?_⟩
  · intro buf n hsucceeds
    by_cases hfront : StoresInFront env st fd buf n
    · have hnone := hfront.call_eq_none
      refine iff_of_false ?_ ?_
      · rintro ⟨r, st', hcall, -⟩
        rw [hnone] at hcall
        cases hcall
      · rintro ⟨-, hzero | ⟨-, hnot⟩⟩
        · rcases hfront with ⟨req, ⟨vp', rip', hwrite, -, -⟩, -⟩
          rcases writeRequest_inv hwrite with ⟨_, _, _, hcall, _, _, _, hn, _⟩
          cases hcall
          exact hn hzero
        · exact hnot hfront
    · rcases hsucceeds.resolve_right hfront with ⟨r, st', hcall, hr⟩
      have hafter := sizesAgree_after_write henv hinv hf hvp hrip hcall hr
      simp only [hfront, not_false_eq_true, and_true, ← hafter]
      constructor
      · rintro ⟨r', st'', hcall', hagree⟩
        rw [hcall] at hcall'
        cases hcall'
        exact hagree
      · intro hagree
        exact ⟨r, st', hcall, hagree⟩
  · intro happend
    have hstart : startPos .writing f vp = vp.v_size := if_pos ⟨rfl, happend⟩
    rw [hstart, hsize]
    omega
  · rw [seekBase, hsize]
    constructor
    · intro hbase
      have hzero := Option.some.inj hbase
      omega
    · intro hzero
      rw [hzero]
      rfl

/-- After three bytes were written, `SEEK_END` seeks from the start of the file. -/
theorem vfs_size_agreement_threeBytes :
    ∃ st f vp rip, calls plainEnv (initial emptyServer) (createFile ++ [.write 0 zeros 3]) = some st ∧
      st.filps 0 = some f ∧ st.vnodes f.filp_vno = some vp ∧
      st.fs.inodes vp.v_inode_nr = some rip ∧ rip.i_size = 3 ∧
      seekBase .seekEnd f vp ≠ some (rip.i_size : Int) := by
  have hresult : ((calls plainEnv (initial emptyServer)
      (createFile ++ [.write 0 zeros 3])).bind fun st => sizesOf st 0) =
        some (⟨6, O_CREAT ||| 2, 3, 0⟩, ⟨0o110644, 0, 0⟩, 3) := by
    decide +kernel
  rcases Option.bind_eq_some_iff.1 hresult with ⟨st, hrun, hsizes⟩
  rcases sizesOf_eq_some hsizes with ⟨hf, hvp, rip, hrip, hsize⟩
  refine ⟨st, _, _, rip, hrun, hf, hvp, hrip, hsize, fun hend => ?_⟩
  have hempty := (vfs_size_agreement plainEnv_ok hrun hf hvp hrip).2.2.1 hend
  omega

/-- A file is created, and a write of three bytes succeeds: the vnode still has size 0. -/
theorem createdFile_sizes_differ :
    ∃ st st' f, calls plainEnv (initial emptyServer) createFile = some st ∧
      st.filps 0 = some f ∧ call plainEnv st (.write 0 zeros 3) = some (3, st') ∧
      ¬ SizesAgree st' f.filp_vno := by
  have hresult : ((calls plainEnv (initial emptyServer) createFile).bind fun st =>
      (call plainEnv st (.write 0 zeros 3)).bind fun out =>
        (sizesOf st 0).bind fun before => (sizesOf out.2 0).map fun after =>
          (before.1, out.1, after)) =
        some (⟨6, O_CREAT ||| 2, 0, 0⟩, 3, ⟨6, O_CREAT ||| 2, 3, 0⟩, ⟨0o110644, 0, 0⟩, 3) := by
    decide +kernel
  rcases Option.bind_eq_some_iff.1 hresult with ⟨st, hrun, hresult⟩
  rcases Option.bind_eq_some_iff.1 hresult with ⟨⟨r, st'⟩, hcall, hresult⟩
  rcases Option.bind_eq_some_iff.1 hresult with ⟨⟨f, vp, size⟩, hbefore, hresult⟩
  rcases Option.map_eq_some_iff.1 hresult with ⟨⟨f', vp', size'⟩, hafter, hend⟩
  cases hend
  rcases sizesOf_eq_some hbefore with ⟨hf, _, _⟩
  rcases sizesOf_eq_some hafter with ⟨_, hvp, rip, hrip, hsize⟩
  refine ⟨st, st', _, hrun, hf, hcall, ?_⟩
  rw [sizesAgree_iff hvp hrip, hsize]
  decide

end Vfs
end OsLab
