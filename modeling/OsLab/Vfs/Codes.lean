import OsLab.Vfs.Open
import OsLab.Vfs.Truncate

/-!
# Codes — the two models of one function

`do_truncate`, `new_node` and `common_open` are modelled twice: with the files and sizes that they change,
and with the locks and references that they hold.  Where the answers of the second model show what the
state of the first one has under the path, both return the same code.  `codes_agree` gives such answers
for a state.

The first model has no symbolic links, so that `new_node` does not call itself, and it leaves devices and
pipes to a parameter, so that the path leads to a file or to a directory.
-/

namespace OsLab
namespace Vfs
namespace Codes

open OsLab.Lib
open OsLab.Lib.Holding
open OsLab.Mfs (OK EINVAL I_IMMEDIATE)
open Lookups

/-- The vnode under a path that can be looked up. -/
def Named (env : Env) (st : State) (path slot : Nat) (vp : Vnode) : Prop :=
  env.pathError st path = none ∧ st.names path = some slot ∧ st.vnodes slot = some vp

/-- The lookup of the whole path. -/
structure ShowsLookup (env : Env) (st : State) (path : Nat) (l : Lookup) : Prop where
  refused : ∀ r, env.pathError st path = some r → ∃ e : ErrCode, e.1 = r ∧ l = .error e
  missing : env.pathError st path = none → st.names path = none →
    ∃ e : ErrCode, e.1 = ENOENT ∧ l = .error e
  found : ∀ slot vp, Named env st path slot vp →
    ∃ f, l = .ok f ∧ f.node.slot = slot ∧ f.node.v_mode = vp.v_mode

section

variable {env : Env} {st st' : State} {path : Nat} {r : Int}

/-! ## do_truncate -/

structure ShowsTruncate (env : Env) (st : State) (path : Nat) (length : Int) (c : Paths.Calls)
    (vsize : Int) : Prop where
  fetchName : c.fetchName1 = none
  lookup : ShowsLookup env st path c.first
  forbidden : ∀ slot vp f, Named env st path slot vp → c.first = .ok f →
    c.forbidden f.node = env.forbidden vp W_BIT
  size : ∀ slot vp, Named env st path slot vp → vsize = vp.v_size
  reply : ∀ slot vp, Named env st path slot vp →
    c.reply = (env.reqFtrunc st.fs vp.v_inode_nr length).1

/-- A call with one name, by what the lookup brings. -/
theorem withNode_error {c : Paths.Calls} {e : ErrCode} (work : Node → Int) (hname : c.fetchName1 = none)
    (he : c.first = .error e) : Paths.withNode c work [] = .ok (e.1, []) := by
  simp [Paths.withNode, hname, he, lookup_error]

theorem withNode_found {c : Paths.Calls} {f : Found} (work : Node → Int) (hname : c.fetchName1 = none)
    (hf : c.first = .ok f) : Paths.withNode c work [] = .ok (work f.node, []) := by
  simp [Paths.withNode, hname, hf, lookup_fresh, leave_fresh]

theorem truncateVnode_code (env : Env) (st : State) (slot : Nat) (vp : Vnode) (newsize : Int) :
    (truncateVnode env st slot vp newsize).1 =
      if vp.type ≠ S_IFIFO ∧ vp.type ≠ S_IFREG ∧ vp.type ≠ S_IFIMM then EINVAL
      else (env.reqFtrunc st.fs vp.v_inode_nr newsize).1 := by
  unfold truncateVnode
  split
  · rfl
  · dsimp only
    split
    · rfl
    · rfl

theorem doTruncate_code {length vsize : Int} {c : Paths.Calls}
    (h : ShowsTruncate env st path length c vsize)
    (hcall : doTruncate env st path length = some (r, st')) :
    Paths.doTruncate c length vsize [] = .ok (r, []) := by
  unfold doTruncate at hcall
  unfold Paths.doTruncate
  by_cases hneg : length < 0
  · rw [if_pos hneg] at hcall ⊢
    cases hcall
    rfl
  · rw [if_neg hneg] at hcall ⊢
    cases herror : env.pathError st path with
    | some r' =>
        rcases h.lookup.refused r' herror with ⟨e, rfl, he⟩
        simp only [herror] at hcall
        cases hcall
        exact withNode_error _ h.fetchName he
    | none =>
        cases hname : st.names path with
        | none =>
            rcases h.lookup.missing herror hname with ⟨e, henoent, he⟩
            simp only [herror, hname] at hcall
            cases hcall
            rw [withNode_error _ h.fetchName he, henoent]
        | some slot =>
            simp only [herror, hname] at hcall
            rcases Option.map_eq_some_iff.1 hcall with ⟨vp, hvp, hcode⟩
            have hnamed : Named env st path slot vp := ⟨herror, hname, hvp⟩
            rcases h.lookup.found slot vp hnamed with ⟨f, hf, -, hmode⟩
            have htype : f.node.type = vp.type := by
              rw [Node.type, Vnode.type, hmode]
            rw [withNode_found _ h.fetchName hf]
            rw [h.forbidden slot vp f hnamed hf, htype, h.size slot vp hnamed, h.reply slot vp hnamed]
            have hr : (if env.forbidden vp W_BIT ≠ OK then (env.forbidden vp W_BIT, st)
                else if vp.type = S_IFREG ∧ vp.v_size = length then (OK, st)
                else truncateVnode env st slot vp length).1 = r := by
              rw [hcode]
            rw [← hr]
            by_cases hallowed : env.forbidden vp W_BIT = OK
            · rw [if_pos hallowed, if_neg (not_not.2 hallowed)]
              by_cases hsame : vp.type = S_IFREG ∧ vp.v_size = length
              · rw [if_pos hsame, if_pos hsame]
              · rw [if_neg hsame, if_neg hsame, truncateVnode_code]
            · rw [if_neg hallowed, if_pos hallowed]

/-! ## new_node -/

/-- One level of `new_node`, in a file system without symbolic links. -/
structure ShowsLevel (env : Env) (st : State) (path bits : Nat) (l : Create.Level) : Prop where
  relative : l.absolute = false
  named : ∀ slot, st.names path = some slot → ∃ vp, st.vnodes slot = some vp
  refused : ∀ r, env.pathError st path = some r → ∃ e : ErrCode, e.1 = r ∧ l.lastDir = .error e
  found : ∀ slot vp, Named env st path slot vp → ∃ f v, l.lastDir = .ok f ∧ l.advance = .ok v ∧
    v.vmnt = f.vmnt ∧ v.node.slot = slot ∧ v.node.v_mode = vp.v_mode
  missing : env.pathError st path = none → st.names path = none →
    ∃ f e, l.lastDir = .ok f ∧ l.advance = .error e ∧ e.1 = ENOENT
  full : env.getFreeVnode st = none → ∃ e : ErrCode, e.1 = ENFILE ∧ l.freeVnode = .error e
  free : ∀ slot, env.getFreeVnode st = some slot → ∃ vp, l.freeVnode = .ok vp ∧ vp.slot = slot
  notMade : ∀ r, env.reqCreate st.fs path bits = .error r → r ≠ OK ∧ r ≠ EEXIST ∧ l.created = r
  made : ∀ out, env.reqCreate st.fs path bits = .ok out → l.created = OK

theorem refsOnly_nil : Create.RefsOnly [] := by
  simp [Create.RefsOnly]

/-- What `new_node` returns, beside what the model with files says: an error without a vnode, or the vnode
with its lock and its reference. -/
structure MadeAs (env : Env) (st : State) (path : Nat) (r : Int) (found : Option Nat) (vp : Option Node)
    (held : List Resource) : Prop where
  slot : vp.map Node.slot = found
  error : vp = none → r ≠ OK ∧ (r = EEXIST → env.pathError st path = some EEXIST) ∧ held = []
  node : ∀ n, vp = some n → (r = OK ∨ r = EEXIST) ∧ held = [.vnodeRef n.slot, .vnodeLock n.slot]
  mode : r = EEXIST → ∀ slot vp' n, Named env st path slot vp' → vp = some n → n.v_mode = vp'.v_mode

theorem madeAs_error (hok : r ≠ OK) (hexist : r = EEXIST → env.pathError st path = some EEXIST) :
    MadeAs env st path r none none [] :=
  ⟨rfl, fun _ => ⟨hok, hexist, rfl⟩, fun n hn => absurd hn (by simp),
    fun _ _ _ n _ hn => absurd hn (by simp)⟩

/-- The last component is there. -/
theorem newNode_found {l : Create.Level} {f v : Found} (hf : l.lastDir = .ok f) (hv : l.advance = .ok v)
    (hrelative : l.absolute = false) (hvmnt : v.vmnt = f.vmnt) : Create.newNode [l] [] =
      .ok (⟨EEXIST, some v.node⟩, [.vnodeRef v.node.slot, .vnodeLock v.node.slot]) := by
  by_cases hslot : v.node.slot = f.node.slot
  · simp [Create.newNode, hf, hv, Create.lookup_dir refsOnly_nil, Create.lookup_self f v hvmnt hslot,
      hrelative, Create.finish_self f EEXIST hslot, hslot]
  · simp [Create.newNode, hf, hv, Create.lookup_dir refsOnly_nil,
      Create.lookup_other f v hvmnt hslot refsOnly_nil, hrelative, Create.finish_other f EEXIST hslot]

/-- The last component is not there. -/
theorem newNode_missing {l : Create.Level} {f : Found} {e : ErrCode} (hf : l.lastDir = .ok f)
    (he : l.advance = .error e) (hnoent : e.1 = ENOENT) (hrelative : l.absolute = false) :
    Create.newNode [l] [] = Create.makeEntry l ⟨f.node, true, some f.vmnt⟩ (Create.newNode [])
      [.vnodeRef f.node.slot, .vnodeLock f.node.slot, .vmntLock f.vmnt] := by
  simp [Create.newNode, hf, he, lookup_fresh, lookup_error, hrelative, hnoent]

/-- The same code, and the same vnode if there is one. -/
theorem newNode_code {bits : Nat} {found : Option Nat} {l : Create.Level} (hl : l.Sane)
    (h : ShowsLevel env st path bits l) (hcall : newNode env st path bits = (r, found, st')) :
    ∃ vp held, Create.newNode [l] [] = .ok (⟨r, vp⟩, held) ∧ MadeAs env st path r found vp held := by
  unfold newNode at hcall
  cases herror : env.pathError st path with
  | some r' =>
      simp only [herror] at hcall
      cases hcall
      rcases h.refused r herror with ⟨e, rfl, he⟩
      refine ⟨none, [], ?_, madeAs_error e.2 fun hexist => ?_⟩
      · simp [Create.newNode, he, lookup_error]
      · rw [herror, hexist]
  | none =>
      cases hname : st.names path with
      | some slot =>
          simp only [herror, hname] at hcall
          cases hcall
          rcases h.named slot hname with ⟨vp, hvp⟩
          rcases h.found slot vp ⟨herror, hname, hvp⟩ with ⟨f, v, hf, hv, hvmnt, hslot, hmode⟩
          refine ⟨some v.node, _, newNode_found hf hv h.relative hvmnt, congrArg some hslot,
            fun hnone => absurd hnone (by simp), ?_, ?_⟩
          · intro n hn
            cases hn
            exact ⟨Or.inr rfl, rfl⟩
          · rintro - slot' vp' n ⟨-, hname', hvp'⟩ hn
            rw [hname] at hname'
            cases hname'
            rw [hvp] at hvp'
            cases hvp'
            rw [← Option.some.inj hn, hmode]
      | none =>
          rcases h.missing herror hname with ⟨f, e, hf, he, hnoent⟩
          rw [newNode_missing hf he hnoent h.relative]
          cases hfree : env.getFreeVnode st with
          | none =>
              simp only [herror, hname, hfree] at hcall
              cases hcall
              rcases h.full hfree with ⟨e', henfile, he'⟩
              refine ⟨none, [], ?_, madeAs_error (by decide) fun hexist => absurd hexist (by decide)⟩
              simp [Create.makeEntry, he', leave_fresh, henfile]
          | some slot =>
              rcases h.free slot hfree with ⟨vp, hvp, hslot⟩
              have hfresh : vp.slot ≠ f.node.slot := hl.fresh f vp hf hvp
              cases hcreate : env.reqCreate st.fs path bits with
              | error r' =>
                  rcases h.notMade r' hcreate with ⟨hok, hexist, hcreated⟩
                  simp only [herror, hname, hfree, hcreate, hexist, if_false] at hcall
                  cases hcall
                  refine ⟨none, [], ?_, madeAs_error hok fun heq => absurd heq hexist⟩
                  simp [Create.makeEntry, hvp, hcreated, hok, hexist, hfresh, unlockVnode, unlockVmnt,
                    putVnode, release]
              | ok out =>
                  have hcreated := h.made out hcreate
                  simp only [herror, hname, hfree, hcreate] at hcall
                  cases hcall
                  refine ⟨some vp, [.vnodeRef vp.slot, .vnodeLock vp.slot], ?_, congrArg some hslot,
                    fun hnone => absurd hnone (by simp), ?_, fun heq => absurd heq (by decide)⟩
                  · simp [Create.makeEntry, hvp, hcreated, Create.finish_other f OK hfresh]
                  · intro n hn
                    cases hn
                    exact ⟨Or.inl rfl, rfl⟩

/-! ## common_open -/

structure ShowsOpen (env : Env) (st : State) (path omode umask : Nat) (a : Open.Answers) : Prop where
  noFd : ∀ r, env.getFd st = .error r → ∃ e : ErrCode, e.1 = r ∧ a.getFd = .error e
  getFd : ∀ fd, env.getFd st = .ok fd → a.getFd = .ok fd
  level : ∃ l, a.levels = [l] ∧ l.Sane ∧
    ShowsLevel env st path (I_IMMEDIATE ||| (omode &&& ALLPERMS &&& umask)) l
  eatPath : ShowsLookup env st path a.eatPath
  pathError : env.pathError st path ≠ some EEXIST
  forbidden : ∀ slot vp, Named env st path slot vp → ∀ bits, a.forbidden bits = env.forbidden vp bits
  file : ∀ slot vp, Named env st path slot vp →
    vp.type = S_IFREG ∨ vp.type = S_IFIMM ∨ vp.type = S_IFDIR

/-- The result for a file or a directory that is there. -/
theorem openExisting_code {a : Open.Answers} {oflags bits slot : Nat} {vp : Vnode} {n : Node}
    (hvp : st.vnodes slot = some vp) (hmode : n.v_mode = vp.v_mode)
    (hforbidden : ∀ bits, a.forbidden bits = env.forbidden vp bits)
    (hfile : vp.type = S_IFREG ∨ vp.type = S_IFIMM ∨ vp.type = S_IFDIR)
    (hcall : openExisting env st slot oflags bits = some (r, st')) :
    Open.openExisting a oflags bits n = pure ⟨r, n, 1⟩ := by
  have htype : n.type = vp.type := by
    rw [Node.type, Vnode.type, hmode]
  unfold openExisting at hcall
  rw [hvp, Option.map_some] at hcall
  have hcode := congrArg Prod.fst (Option.some.inj hcall)
  unfold Open.openExisting
  rw [hforbidden bits, hforbidden W_BIT, htype]
  dsimp only at hcode
  by_cases hallowed : env.forbidden vp bits = OK
  · rw [if_neg (not_not.2 hallowed)] at hcode ⊢
    by_cases hreg : vp.type = S_IFREG ∨ vp.type = S_IFIMM
    · rw [if_pos hreg] at hcode ⊢
      by_cases htrunc : oflags &&& O_TRUNC ≠ 0
      · rw [if_pos htrunc] at hcode ⊢
        by_cases hwrite : env.forbidden vp W_BIT = OK
        · rw [if_neg (not_not.2 hwrite)] at hcode
          rw [hwrite, ← hcode]
        · rw [if_pos hwrite] at hcode
          rw [← hcode]
      · rw [if_neg htrunc] at hcode ⊢
        rw [← hcode]
    · have hdir : vp.type = S_IFDIR := by tauto
      rw [if_neg hreg, if_pos hdir] at hcode ⊢
      rw [← hcode]
  · rw [if_pos hallowed] at hcode ⊢
    rw [← hcode]

/-- The way out. -/
theorem claim_code (fd : Nat) {vp : Node} {mid : List Open.Held} (hmid : Open.Owned vp mid) (r : Int) :
    ∃ held, Open.claim fd (pure ⟨r, vp, 1⟩) (mid ++ [.filpLock]) =
      .ok (if r = OK then (fd : Int) else r, held) := by
  have hfinish := Open.finish_owned fd hmid [] (Or.inl rfl) r
  rw [List.nil_append] at hfinish
  have hrun : Open.claim fd (pure ⟨r, vp, 1⟩) (mid ++ [.filpLock]) =
      Open.finish fd ⟨r, vp, 1⟩ (.descriptor fd :: (mid ++ [.filpLock])) := rfl
  rw [hrun, hfinish]
  by_cases hok : r = OK
  · rw [if_pos hok, if_pos hok]
    exact ⟨_, rfl⟩
  · rw [if_neg hok, if_neg hok]
    by_cases hsuspend : r = SUSPEND
    · rw [if_pos hsuspend, hsuspend]
      exact ⟨_, rfl⟩
    · rw [if_neg hsuspend]
      exact ⟨_, rfl⟩

/-- The code of `claimFilp`, for a file that was made or one that is opened. -/
theorem claimFilp_code {fd slot oflags bits : Nat} {exist : Bool} {r₀ : Int}
    (hcall : claimFilp env st fd slot oflags bits exist r₀ = some (r, st')) :
    ∃ r₁, r = (if r₁ = OK then (fd : Int) else r₁) ∧ (exist = false → r₁ = r₀) ∧
      (exist = true → ∃ st₁ st₂, st₁.vnodes = st.vnodes ∧
        openExisting env st₁ slot oflags bits = some (r₁, st₂)) := by
  unfold claimFilp at hcall
  rcases Option.map_eq_some_iff.1 hcall with ⟨⟨r₁, st₁⟩, hopen, hend⟩
  have hcode : r = (if r₁ = OK then (fd : Int) else r₁) := by
    by_cases hok : r₁ = OK
    · simp only [hok, if_true] at hend ⊢
      exact (congrArg Prod.fst hend).symm
    · simp only [hok, if_false] at hend ⊢
      split at hend
      · exact (congrArg Prod.fst hend).symm
      · exact (congrArg Prod.fst hend).symm
  refine ⟨r₁, hcode, ?_, ?_⟩
  · rintro rfl
    cases hopen
    rfl
  · rintro rfl
    refine ⟨{ st with filps := Function.update st.filps fd (some ⟨bits, oflags, 0, slot⟩) }, st₁, rfl, ?_⟩
    exact hopen

theorem newNode_exist {bits slot : Nat} (hcall : newNode env st path bits = (EEXIST, some slot, st')) :
    env.pathError st path = none ∧ st.names path = some slot ∧ st' = st := by
  unfold newNode at hcall
  cases herror : env.pathError st path with
  | some r' =>
      simp only [herror] at hcall
      cases hcall
  | none =>
      cases hname : st.names path with
      | some slot' =>
          simp only [herror, hname] at hcall
          cases hcall
          exact ⟨rfl, rfl, rfl⟩
      | none =>
          cases hfree : env.getFreeVnode st with
          | none =>
              simp only [herror, hname, hfree] at hcall
              cases hcall
          | some slot' =>
              cases hcreate : env.reqCreate st.fs path bits with
              | error r' =>
                  simp only [herror, hname, hfree, hcreate] at hcall
                  exact absurd (congrArg (fun out => out.2.1) hcall) (by simp)
              | ok out =>
                  simp only [herror, hname, hfree, hcreate] at hcall
                  have hcode : OK = EEXIST := congrArg Prod.fst hcall
                  exact absurd hcode (by decide)

/-- The vnode that the path leads to is opened. -/
theorem claim_named {a : Open.Answers} {oflags omode umask bits fd slot : Nat} {vp : Vnode} {n : Node}
    {mid : List Open.Held} {st₁ : State} {r₀ : Int} (h : ShowsOpen env st path omode umask a)
    (hnamed : Named env st path slot vp) (hvnodes : st₁.vnodes = st.vnodes) (hmode : n.v_mode = vp.v_mode)
    (hmid : Open.Owned n mid) (hcall : claimFilp env st₁ fd slot oflags bits true r₀ = some (r, st')) :
    ∃ held, Open.claim fd (Open.openExisting a oflags bits n) (mid ++ [.filpLock]) = .ok (r, held) := by
  rcases claimFilp_code hcall with ⟨r₁, hr, -, hexisting⟩
  rcases hexisting rfl with ⟨st₂, st₃, hsame, hopen⟩
  have hvp : st₂.vnodes slot = some vp := by
    rw [hsame, hvnodes]
    exact hnamed.2.2
  rw [openExisting_code hvp hmode (h.forbidden slot vp hnamed) (h.file slot vp hnamed) hopen, hr]
  exact claim_code fd hmid r₁

/-- `O_CREAT` is set. -/
theorem commonOpen_code_create {a : Open.Answers} {oflags omode umask fd : Nat}
    (h : ShowsOpen env st path omode umask a) (hbits : modeMap (oflags &&& O_ACCMODE) ≠ 0)
    (hfd : env.getFd st = .ok fd) (hcreat : oflags &&& O_CREAT ≠ 0)
    (hcall : commonOpen env st path oflags omode umask = some (r, st')) :
    ∃ held, Open.commonOpen a oflags [] = .ok (r, held) := by
  rcases h.level with ⟨l, hlevels, hl, hshows⟩
  rw [Open.open_create a hbits (h.getFd fd hfd) hcreat, hlevels]
  unfold commonOpen at hcall
  dsimp only at hcall
  rw [if_neg hbits, hfd] at hcall
  dsimp only at hcall
  rw [if_pos hcreat] at hcall
  rcases hnew : newNode env st path (I_IMMEDIATE ||| (omode &&& ALLPERMS &&& umask)) with ⟨r₀, found, st₁⟩
  rw [hnew] at hcall
  rcases newNode_code hl hshows hnew with ⟨vp, held, hrun, hmade⟩
  rw [hrun]
  cases vp with
  | none =>
      rcases hmade.error rfl with ⟨hok, hexist, rfl⟩
      have hfound : found = none := hmade.slot.symm
      subst hfound
      cases hcall
      have hnot : ¬ (r = OK ∨ r = EEXIST) := by
        rintro (heq | heq)
        · exact hok heq
        · exact h.pathError (hexist heq)
      dsimp only
      rw [if_neg hnot]
      exact ⟨[], by simp [release]⟩
  | some n =>
      rcases hmade.node n rfl with ⟨hr₀, rfl⟩
      have hfound : found = some n.slot := hmade.slot.symm
      subst hfound
      have hmid : Open.Owned n ([Resource.vnodeRef n.slot, .vnodeLock n.slot].map Open.Held.path) :=
        Or.inl rfl
      dsimp only at hcall ⊢
      rcases hr₀ with rfl | rfl
      · rw [if_pos rfl] at hcall ⊢
        rcases claimFilp_code hcall with ⟨r₁, hr, hmadeCode, -⟩
        rw [hr, hmadeCode rfl]
        exact claim_code fd hmid OK
      · have hne : ¬ EEXIST = OK := by decide
        rw [if_neg hne] at hcall ⊢
        rw [if_neg (not_not.2 rfl)]
        by_cases hexcl : oflags &&& O_EXCL = 0
        · rw [if_neg (not_not.2 hexcl)]
          simp only [hexcl, decide_true] at hcall
          rcases newNode_exist hnew with ⟨herror, hname, rfl⟩
          rcases hshows.named n.slot hname with ⟨vp, hvp⟩
          have hnamed : Named env st₁ path n.slot vp := ⟨herror, hname, hvp⟩
          exact claim_named h hnamed rfl (hmade.mode rfl n.slot vp n hnamed rfl) hmid hcall
        · have hexcl' : oflags &&& O_EXCL ≠ 0 := hexcl
          rw [if_pos hexcl']
          simp only [hexcl, decide_false] at hcall
          rcases claimFilp_code hcall with ⟨r₁, hr, hkept, -⟩
          rw [hr, hkept rfl]
          exact claim_code fd hmid EEXIST

/-- `O_CREAT` is not set. -/
theorem commonOpen_code_lookup {a : Open.Answers} {oflags omode umask fd : Nat}
    (h : ShowsOpen env st path omode umask a) (hbits : modeMap (oflags &&& O_ACCMODE) ≠ 0)
    (hfd : env.getFd st = .ok fd) (hcreat : ¬ oflags &&& O_CREAT ≠ 0)
    (hcall : commonOpen env st path oflags omode umask = some (r, st')) :
    ∃ held, Open.commonOpen a oflags [] = .ok (r, held) := by
  rw [Open.open_lookup a hbits (h.getFd fd hfd) hcreat]
  unfold commonOpen at hcall
  dsimp only at hcall
  rw [if_neg hbits, hfd] at hcall
  dsimp only at hcall
  rw [if_neg hcreat] at hcall
  cases herror : env.pathError st path with
  | some r' =>
      rcases h.eatPath.refused r' herror with ⟨e, rfl, he⟩
      simp only [herror] at hcall
      cases hcall
      rw [he]
      exact ⟨[], rfl⟩
  | none =>
      cases hname : st.names path with
      | none =>
          rcases h.eatPath.missing herror hname with ⟨e, hnoent, he⟩
          simp only [herror, hname] at hcall
          cases hcall
          rw [he]
          dsimp only
          rw [hnoent]
          exact ⟨[], rfl⟩
      | some slot =>
          simp only [herror, hname] at hcall
          rcases h.level with ⟨l, -, -, hshows⟩
          rcases hshows.named slot hname with ⟨vp, hvp⟩
          have hnamed : Named env st path slot vp := ⟨herror, hname, hvp⟩
          rcases h.eatPath.found slot vp hnamed with ⟨f, hf, -, hmode⟩
          rw [hf]
          exact claim_named h hnamed rfl hmode (Or.inl rfl) hcall

/-- The code of `common_open`: the two models agree on it. -/
theorem commonOpen_code {a : Open.Answers} {oflags omode umask : Nat}
    (h : ShowsOpen env st path omode umask a)
    (hcall : commonOpen env st path oflags omode umask = some (r, st')) :
    ∃ held, Open.commonOpen a oflags [] = .ok (r, held) := by
  by_cases hbits : modeMap (oflags &&& O_ACCMODE) = 0
  · unfold commonOpen at hcall
    unfold Open.commonOpen
    dsimp only at hcall ⊢
    rw [if_pos hbits] at hcall ⊢
    cases hcall
    exact ⟨[], rfl⟩
  · cases hfd : env.getFd st with
    | error r' =>
        rcases h.noFd r' hfd with ⟨e, rfl, he⟩
        unfold commonOpen at hcall
        unfold Open.commonOpen
        dsimp only at hcall ⊢
        rw [if_neg hbits, hfd] at hcall
        rw [if_neg hbits, he]
        cases hcall
        exact ⟨[], rfl⟩
    | ok fd =>
        by_cases hcreat : oflags &&& O_CREAT ≠ 0
        · exact commonOpen_code_create h hbits hfd hcreat hcall
        · exact commonOpen_code_lookup h hbits hfd hcreat hcall

/-! ## The answers of a state -/

/-- Errors are errors, `EEXIST` is for `new_node` to find out, and the path leads to a file or to a
directory. -/
structure Consistent (env : Env) (st : State) (path bits : Nat) : Prop where
  getFd : ∀ r, env.getFd st = .error r → r ≠ OK
  pathError : ∀ r, env.pathError st path = some r → r ≠ OK ∧ r ≠ EEXIST
  named : ∀ slot, st.names path = some slot → ∃ vp, st.vnodes slot = some vp ∧
    (vp.type = S_IFREG ∨ vp.type = S_IFIMM ∨ vp.type = S_IFDIR)
  reqCreate : ∀ r, env.reqCreate st.fs path bits = .error r → r ≠ OK ∧ r ≠ EEXIST

def errCode (r : Int) : ErrCode :=
  if h : r ≠ OK then ⟨r, h⟩ else noEntry

theorem errCode_val (h : r ≠ OK) : (errCode r).1 = r := by
  rw [errCode, dif_pos h]

/-- The vnode under the path. -/
def vnodeAt (st : State) (path : Nat) : Option (Nat × Vnode) :=
  (st.names path).bind fun slot => (st.vnodes slot).map fun vp => (slot, vp)

theorem Named.vnodeAt {slot : Nat} {vp : Vnode} (h : Named env st path slot vp) :
    vnodeAt st path = some (slot, vp) := by
  simp [Codes.vnodeAt, h.2.1, h.2.2]

def nodeOf (slot : Nat) (vp : Vnode) : Node :=
  { slot := slot, v_mode := vp.v_mode, v_uid := SU_UID, v_fs_e := 0, v_inode_nr := vp.v_inode_nr }

def lastOf (st : State) (path : Nat) : Lookup :=
  match vnodeAt st path with
  | none => .error noEntry
  | some (slot, vp) => .ok ⟨nodeOf slot vp, 0⟩

def lookupOf (env : Env) (st : State) (path : Nat) : Lookup :=
  match env.pathError st path with
  | some r => .error (errCode r)
  | none => lastOf st path

/-- Some directory that is not the free vnode. -/
def dirOf (env : Env) (st : State) : Found :=
  ⟨{ slot := (env.getFreeVnode st).elim 0 Nat.succ, v_mode := S_IFDIR, v_uid := SU_UID, v_fs_e := 0
     v_inode_nr := 0 }, 0⟩

def levelOf (env : Env) (st : State) (path bits : Nat) : Create.Level where
  lastDir := match env.pathError st path with
    | some r => .error (errCode r)
    | none => .ok (dirOf env st)
  advance := lastOf st path
  absolute := false
  freeVnode := match env.getFreeVnode st with
    | none => .error (errCode ENFILE)
    | some slot => .ok (nodeOf slot ⟨0, 0, 0⟩)
  forbidden := OK
  reqCreate := match env.reqCreate st.fs path bits with
    | .error r => r
    | .ok _ => OK
  link := .error noEntry
  reqRdlink := 0

def answersOf (env : Env) (st : State) (path bits : Nat) : Open.Answers where
  getFd := match env.getFd st with
    | .error r => .error (errCode r)
    | .ok fd => .ok fd
  levels := [levelOf env st path bits]
  eatPath := lookupOf env st path
  forbidden b := match vnodeAt st path with
    | none => OK
    | some (_, vp) => env.forbidden vp b
  cdevOpen := OK
  clone := none
  bdevOpen := OK
  driver := true
  rootBsf := true
  reqNewdriver := OK
  mapVnode := OK
  stale := false
  truncate := OK
  otherEnd := true
  coOpener := false

theorem showsLookup_lookupOf {bits : Nat} (h : Consistent env st path bits) :
    ShowsLookup env st path (lookupOf env st path) := by
  refine ⟨?_, ?_, ?_⟩
  · intro r hr
    exact ⟨errCode r, errCode_val (h.pathError r hr).1, by rw [lookupOf, hr]⟩
  · intro herror hname
    refine ⟨noEntry, rfl, ?_⟩
    rw [lookupOf, herror]
    simp [lastOf, vnodeAt, hname]
  · intro slot vp hnamed
    refine ⟨⟨nodeOf slot vp, 0⟩, ?_, rfl, rfl⟩
    rw [lookupOf, hnamed.1]
    simp only [lastOf, hnamed.vnodeAt]

theorem levelOf_sane (env : Env) (st : State) (path bits : Nat) : (levelOf env st path bits).Sane := by
  refine ⟨?_, ?_, ?_⟩
  · intro f vp hf hvp
    simp only [levelOf] at hf hvp
    cases hfree : env.getFreeVnode st with
    | none =>
        rw [hfree] at hvp
        cases hvp
    | some slot =>
        rw [hfree] at hvp
        cases herror : env.pathError st path with
        | some r =>
            rw [herror] at hf
            cases hf
        | none =>
            rw [herror] at hf
            cases hf
            cases hvp
            simp [dirOf, hfree, nodeOf]
  · intro f s _ hs
    cases hs
  · intro vp s _ hs
    cases hs

theorem showsLevel_levelOf {bits : Nat} (h : Consistent env st path bits) :
    ShowsLevel env st path bits (levelOf env st path bits) where
  relative := rfl
  named slot hslot := (h.named slot hslot).imp fun _ hvp => hvp.1
  refused r hr := ⟨errCode r, errCode_val (h.pathError r hr).1, by simp only [levelOf, hr]⟩
  found slot vp hnamed := by
    refine ⟨dirOf env st, ⟨nodeOf slot vp, 0⟩, ?_, ?_, rfl, rfl, rfl⟩
    · simp only [levelOf, hnamed.1]
    · simp only [levelOf, lastOf, hnamed.vnodeAt]
  missing herror hname := by
    refine ⟨dirOf env st, noEntry, ?_, ?_, rfl⟩
    · simp only [levelOf, herror]
    · simp [levelOf, lastOf, vnodeAt, hname]
  full hfree := ⟨errCode ENFILE, errCode_val (by decide), by simp only [levelOf, hfree]⟩
  free slot hfree := ⟨nodeOf slot ⟨0, 0, 0⟩, by simp only [levelOf, hfree], rfl⟩
  notMade r hr := by
    refine ⟨(h.reqCreate r hr).1, (h.reqCreate r hr).2, ?_⟩
    simp [Create.Level.created, levelOf, hr]
  made out hout := by
    simp [Create.Level.created, levelOf, hout]

theorem showsOpen_answersOf {omode umask : Nat}
    (h : Consistent env st path (I_IMMEDIATE ||| (omode &&& ALLPERMS &&& umask))) :
    ShowsOpen env st path omode umask
      (answersOf env st path (I_IMMEDIATE ||| (omode &&& ALLPERMS &&& umask))) where
  noFd r hr := ⟨errCode r, errCode_val (h.getFd r hr), by simp only [answersOf, hr]⟩
  getFd fd hfd := by simp only [answersOf, hfd]
  level := ⟨_, rfl, levelOf_sane _ _ _ _, showsLevel_levelOf h⟩
  eatPath := showsLookup_lookupOf h
  pathError := fun herror => (h.pathError _ herror).2 rfl
  forbidden slot vp hnamed bits := by simp only [answersOf, hnamed.vnodeAt]
  file slot vp hnamed := by
    rcases h.named slot hnamed.2.1 with ⟨vp', hvp', htype⟩
    rw [hnamed.2.2] at hvp'
    cases hvp'
    exact htype

def callsOf (env : Env) (st : State) (path : Nat) (length : Int) : Paths.Calls where
  effuid := SU_UID
  fetchName1 := none
  fetchName2 := none
  first := lookupOf env st path
  second := .error noEntry
  sticky := .error noEntry
  nameLength := 0
  forbidden _ := match vnodeAt st path with
    | none => OK
    | some (_, vp) => env.forbidden vp W_BIT
  reply := match vnodeAt st path with
    | none => OK
    | some (_, vp) => (env.reqFtrunc st.fs vp.v_inode_nr length).1

def sizeAt (st : State) (path : Nat) : Int :=
  match vnodeAt st path with
  | none => 0
  | some (_, vp) => vp.v_size

theorem showsTruncate_callsOf {bits : Nat} (h : Consistent env st path bits) (length : Int) :
    ShowsTruncate env st path length (callsOf env st path length) (sizeAt st path) where
  fetchName := rfl
  lookup := showsLookup_lookupOf h
  forbidden slot vp f hnamed _ := by simp only [callsOf, hnamed.vnodeAt]
  size slot vp hnamed := by simp only [sizeAt, hnamed.vnodeAt]
  reply slot vp hnamed := by simp only [callsOf, hnamed.vnodeAt]

/-- **One code.**  For every consistent state there are answers for which `common_open` and `do_truncate`
return the same codes in both models, and `do_truncate` holds nothing afterwards. -/
theorem codes_agree {oflags omode umask : Nat}
    (h : Consistent env st path (I_IMMEDIATE ||| (omode &&& ALLPERMS &&& umask))) :
    (∀ r st', commonOpen env st path oflags omode umask = some (r, st') → ∃ held,
      Open.commonOpen (answersOf env st path (I_IMMEDIATE ||| (omode &&& ALLPERMS &&& umask))) oflags [] =
        .ok (r, held)) ∧
      ∀ length r st', doTruncate env st path length = some (r, st') →
        Paths.doTruncate (callsOf env st path length) length (sizeAt st path) [] = .ok (r, []) :=
  ⟨fun _ _ hcall => commonOpen_code (showsOpen_answersOf h) hcall,
    fun length _ _ hcall => doTruncate_code (showsTruncate_callsOf h length) hcall⟩

/-- A server that has just started is such a state. -/
example (fs : Mfs.Server) (path bits : Nat) : Consistent plainEnv (initial fs) path bits where
  getFd r hr := by
    simp only [plainEnv] at hr
    split at hr
    · cases hr
      decide
    · cases hr
  pathError r hr := by cases hr
  named slot hslot := by cases hslot
  reqCreate r hr := by
    simp only [plainEnv] at hr
    split at hr
    · cases hr
      decide
    · cases hr

end

end Codes
end Vfs
end OsLab
