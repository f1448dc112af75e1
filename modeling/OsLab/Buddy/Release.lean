import OsLab.Buddy.Allocate

/-!
# Buddy allocator — release keeps the invariant

`releaseProcess` takes the block of the process in hand (`BuddyInv.hold`).  While the buddy of the
block in hand is free, both are cut off and their parent is in hand instead (`Held.merge`); then the
block in hand goes back on the free list (`Held.giveBack`).  Neither step depends on the outcome of
the pointer comparison: it only decides which of the two blocks that leave the tree is scribbled
over.
-/

namespace OsLab
namespace Buddy

open Lib BuddySystem

variable {s : BuddySystem} {L U : Nat} {t : Tree} {ctx : List Frame} {x : Ptr}

/-! ## Taking a granted block in hand -/

/-- The state in which the block `x` of process `pid` is in hand. -/
def holdState (s : BuddySystem) (x : Ptr) (pid : Int) : BuddySystem :=
  { s with
    heap := Function.update s.heap x { s.heap x with free := true }
    blockMap := Function.update s.blockMap pid none }

theorem holdState_ne {p : Ptr} (pid : Int) (hp : p ≠ x) : (holdState s x pid).heap p = s.heap p := by
  simp [holdState, hp]

/-- Forgetting its owner puts a granted block in hand. -/
theorem BuddyInv.hold_at (I : BuddyInv s L U (plug ctx (.leaf x))) {pid : Int} (hpid : pid ≠ 0)
    (hmap : s.blockMap pid = some x) : Held (holdState s x pid) L U ctx x := by
  rcases I.owned pid x hpid hmap with ⟨_, hgranted, hpId, _⟩
  have hleaves := leaves_plug_perm ctx (.leaf x)
  have hctx : ∀ p ∈ ctxLeaves ctx, (holdState s x pid).heap p = s.heap p := by
    have hnd := hleaves.nodup_iff.1 (Tree.leaves_nodup I.shape.nodup)
    have hx : x ∉ ctxLeaves ctx := (List.nodup_cons.1 (by simpa using hnd)).1
    intro p hp
    exact holdState_ne pid fun hpx => hx (hpx ▸ hp)
  refine ⟨I.minBlock, I.shape.update_leaf ⟨rfl, rfl, rfl⟩ ⟨rfl, rfl⟩,
    I.fits.update ⟨rfl, rfl⟩, ?_, ?_, ?_, ?_⟩
  · -- `x` was granted, so the free leaves are all around it.
    have hperm := I.freePerm.trans (hleaves.filter fun p => (s.heap p).free)
    rw [filter_free_congr hctx]
    simpa [hgranted, holdState] using hperm
  · refine pairwise_before_congr ?_ I.sorted
    -- A listed block is free, and `x` was not.
    intro p hp
    have hmem := List.mem_filter.1 (I.freePerm.mem_iff.1 hp)
    refine holdState_ne pid ?_
    intro hpx
    simp [hpx, hgranted] at hmem
  · refine ((noTwins_plug ctx (.leaf x)).1 I.noTwins).1.to_false.congr ?_
    intro p hp
    rw [hctx p hp]
  · -- Another process holds another block, because a block names its process.
    intro q p hq hp
    have hqp : q ≠ pid := by
      intro hqp
      simp [holdState, hqp] at hp
    have hp' : s.blockMap q = some p := by simpa [holdState, hqp] using hp
    rcases I.owned q p hq hp' with ⟨hmem, hrest⟩
    have hpx : p ≠ x := by
      intro hpx
      subst hpx
      exact hqp (hrest.2.1.symm.trans hpId)
    rw [holdState_ne pid hpx]
    have hmem' := hleaves.mem_iff.1 hmem
    exact ⟨by simpa [hpx] using hmem', hrest⟩

theorem BuddyInv.hold (I : BuddyInv s L U t) {pid : Int} (hpid : pid ≠ 0)
    (hmap : s.blockMap pid = some x) :
    ∃ ctx, t = plug ctx (.leaf x) ∧ Held (holdState s x pid) L U ctx x := by
  rcases exists_plug_of_mem_leaves (I.owned pid x hpid hmap).1 with ⟨ctx, rfl⟩
  exact ⟨ctx, rfl, I.hold_at hpid hmap⟩

/-! ## Merging with a free buddy -/

/-- The heap after a merge below `p`, in which `z` was the block called `block` after the swap. -/
def mergeHeap (h : Ptr → BuddyBlock) (z p : Ptr) : Ptr → BuddyBlock :=
  Function.update
    (Function.update h z { h z with size := (h z).size * 2, right := none, free := true }) p
    { h p with left := none, right := none }

theorem mergeHeap_top {h : Ptr → BuddyBlock} {z p : Ptr} :
    mergeHeap h z p p = { h p with left := none, right := none } := by
  simp [mergeHeap]

theorem mergeHeap_cut {h : Ptr → BuddyBlock} {z p : Ptr} (hzp : z ≠ p) :
    mergeHeap h z p z = { h z with size := (h z).size * 2, right := none, free := true } := by
  simp [mergeHeap, hzp]

theorem mergeHeap_other {h : Ptr → BuddyBlock} {z p q : Ptr} (hqz : q ≠ z) (hqp : q ≠ p) :
    mergeHeap h z p q = h q := by
  simp [mergeHeap, hqz, hqp]

/-- The state after a merge below `p` in which the buddy `y` leaves the free list. -/
def mergeState (s : BuddySystem) (y z p : Ptr) : BuddySystem :=
  { s.removeFree y with heap := mergeHeap s.heap z p }

theorem mergeInto_eq {p z w : Ptr} (hz : (s.heap z).parent = some p)
    (hw : (s.heap w).right = none)
    (hkid : (s.heap p).left = some z ∨ (s.heap p).right = some z) (hwz : w ≠ z) (hpz : p ≠ z) :
    s.mergeInto z w = some ({ s with heap := mergeHeap s.heap z p }, some p) := by
  by_cases hl : (s.heap p).left = some z
  · simp [mergeInto, BuddySystem.modify, mergeHeap, hz, hw, hwz, hl, hpz, hpz.symm]
  · have hr : (s.heap p).right = some z := hkid.resolve_left hl
    simp [mergeInto, BuddySystem.modify, mergeHeap, hz, hw, hwz, hl, hr, hpz, hpz.symm]

theorem merge_eq {p y : Ptr} (below : Ptr → Ptr → Bool)
    (hx : (s.heap x).parent = some p) (hy : (s.heap y).parent = some p)
    (hrx : (s.heap x).right = none) (hry : (s.heap y).right = none)
    (hkids : ((s.heap p).left = some x ∧ (s.heap p).right = some y) ∨
      ((s.heap p).left = some y ∧ (s.heap p).right = some x))
    (hxy : x ≠ y) (hpx : p ≠ x) (hpy : p ≠ y) :
    ∃ z, (z = x ∨ z = y) ∧
      s.merge below x y = some (mergeState s y z p, some p) := by
  -- The swap decides which of the two is resized; both are cut off.
  by_cases hswap : below y x = true
  · have hkid : (s.heap p).left = some y ∨ (s.heap p).right = some y := by tauto
    refine ⟨y, Or.inr rfl, ?_⟩
    simp only [merge, hswap, if_true]
    exact mergeInto_eq (s := s.removeFree y) hy hrx hkid hxy hpy
  · have hkid : (s.heap p).left = some x ∨ (s.heap p).right = some x := by tauto
    refine ⟨x, Or.inl rfl, ?_⟩
    simp only [merge, hswap]
    exact mergeInto_eq (s := s.removeFree y) hx hry hkid hxy.symm hpx

section Merge

variable {side : Side} {p y z : Ptr} {fs : List Frame}

/-- The two blocks below `p` are neither each other nor `p`, and none of the three is further
out. -/
theorem Held.apart (H : Held s L U (⟨side, p, .leaf y⟩ :: fs) x) :
    x ≠ y ∧ p ≠ x ∧ p ≠ y ∧ x ∉ ctxPtrs fs ∧ y ∉ ctxPtrs fs ∧ p ∉ ctxPtrs fs := by
  have hnd := H.nodup_cons
  simp only [ctxPtrs_cons, Tree.ptrs_leaf, List.cons_append, List.nil_append, List.nodup_cons,
    List.mem_cons, not_or] at hnd
  rcases hnd with ⟨⟨hxp, hxy, hxfs⟩, ⟨hpy, hpfs⟩, hyfs, _⟩
  exact ⟨hxy, Ne.symm hxp, hpy, hxfs, hyfs, hpfs⟩

/-- Merging touches nothing outside the parent's part of the tree. -/
theorem Held.mergeHeap_ctx (H : Held s L U (⟨side, p, .leaf y⟩ :: fs) x) (hz : z = x ∨ z = y) :
    ∀ q ∈ ctxPtrs fs, mergeHeap s.heap z p q = s.heap q := by
  rcases H.apart with ⟨_, _, _, hxfs, hyfs, hpfs⟩
  have hzfs : z ∉ ctxPtrs fs := by
    rcases hz with rfl | rfl
    · exact hxfs
    · exact hyfs
  intro q hq
  exact mergeHeap_other (fun hqz => hzfs (hqz ▸ hq)) fun hqp => hpfs (hqp ▸ hq)

/-- Either block has half the size of the parent. -/
theorem Held.pair_size (H : Held s L U (⟨side, p, .leaf y⟩ :: fs) x) (hz : z = x ∨ z = y) :
    (s.heap z).size * 2 = (s.heap p).size := by
  have hsized : Sized s.heap L U 0 (plug fs (Frame.fill ⟨side, p, .leaf y⟩ (.leaf x))) :=
    H.shape.sized
  rcases hsized.of_plug with ⟨i, a, _, _, _, hnode, _⟩
  cases side with
  | L =>
      rcases hnode with ⟨hp, _, k, rfl, hleafx, hleafy⟩
      rcases hz with rfl | rfl
      · rw [hleafx.1, hp, pow_succ]
      · rw [hleafy.1, hp, pow_succ]
  | R =>
      rcases hnode with ⟨hp, _, k, rfl, hleafy, hleafx⟩
      rcases hz with rfl | rfl
      · rw [hleafx.1, hp, pow_succ]
      · rw [hleafy.1, hp, pow_succ]

/-- Merging turns the parent into a leaf over the range it had. -/
theorem Held.merge_shape (H : Held s L U (⟨side, p, .leaf y⟩ :: fs) x) (hz : z = x ∨ z = y) :
    Shape (mergeHeap s.heap z p) s.next s.root L U (plug fs (.leaf p)) := by
  have hst := (stored_plug s.heap none _ (.leaf x)).1 H.shape.stored
  rcases hst with ⟨⟨_, hppar, _, _⟩, _⟩
  have hp : p ∉ ctxPtrs fs := H.apart.2.2.2.2.2
  have hlt : p < s.next := H.lt_next (by simp)
  have hshape : Shape s.heap s.next s.root L U
      (plug fs (Frame.fill ⟨side, p, .leaf y⟩ (.leaf x))) := H.shape
  refine hshape.refill (H.mergeHeap_ctx hz) (le_refl s.next) (by simp) ?_ (by simp)
    (by simp [hp, hlt]) ?_ (by simp)
  · rw [Stored, mergeHeap_top]
    exact ⟨rfl, rfl, hppar⟩
  · -- The parent has kept its size and start since it was split.
    intro i a hnode
    have hroot := hnode.root_eq
    simp only [Frame.root_fill] at hroot
    rw [Sized, mergeHeap_top]
    exact ⟨hroot.1, hroot.2, hnode.level_le⟩

theorem Held.merge_fits (H : Held s L U (⟨side, p, .leaf y⟩ :: fs) x) (hz : z = x ∨ z = y) :
    Fits (mergeHeap s.heap z p) U := by
  rcases H.apart with ⟨_, hpx, hpy, _⟩
  have hzp : z ≠ p := by
    rcases hz with rfl | rfl
    · exact hpx.symm
    · exact hpy.symm
  intro q
  -- The doubled size is the size of the parent.
  by_cases hqz : q = z
  · have hpfit := H.fits p
    have hzfit := H.fits z
    rw [hqz, mergeHeap_cut hzp]
    simp only [H.pair_size hz]
    exact ⟨hzfit.1, hzfit.2.1, hpfit.2.2⟩
  · by_cases hqp : q = p
    · rw [hqp, mergeHeap_top]
      exact H.fits p
    · rw [mergeHeap_other hqz hqp]
      exact H.fits q

/-- Without the buddy, the free list has the free blocks further out. -/
theorem Held.removeFree_perm (H : Held s L U (⟨side, p, .leaf y⟩ :: fs) x)
    (hfree : (s.heap y).free = true) :
    (s.removeFree y).freeList.Perm ((ctxLeaves fs).filter fun q => (s.heap q).free) := by
  have hyleaf : y ∉ ctxLeaves fs := fun hy =>
    H.apart.2.2.2.2.1 (mem_ctxPtrs_of_mem_ctxLeaves hy)
  have hperm := H.freePerm.filter fun q => decide (q ≠ y)
  -- The buddy is a free leaf of the context and is listed once.
  have hdrop : ((ctxLeaves (⟨side, p, .leaf y⟩ :: fs)).filter fun q => (s.heap q).free).filter
      (fun q => decide (q ≠ y)) = (ctxLeaves fs).filter fun q => (s.heap q).free := by
    have hkeep : ((ctxLeaves fs).filter fun q => (s.heap q).free).filter
        (fun q => decide (q ≠ y)) = (ctxLeaves fs).filter fun q => (s.heap q).free := by
      refine List.filter_eq_self.2 ?_
      intro q hq
      have hqy : q ≠ y := by
        rintro rfl
        exact hyleaf (List.mem_filter.1 hq).1
      simpa using hqy
    simpa [hfree] using hkeep
  rw [hdrop] at hperm
  exact hperm

theorem Held.merge_keeps (H : Held s L U (⟨side, p, .leaf y⟩ :: fs) x) (hz : z = x ∨ z = y)
    (hfree : (s.heap y).free = true) :
    KeepsGrants s (ctxLeaves (⟨side, p, .leaf y⟩ :: fs)) (mergeState s y z p) (ctxLeaves fs) := by
  have hother : ∀ q ∈ ctxLeaves fs, (mergeState s y z p).heap q = s.heap q := fun q hq =>
    H.mergeHeap_ctx hz q (mem_ctxPtrs_of_mem_ctxLeaves hq)
  refine KeepsGrants.of_agree ?_ ?_
  · intro q hq hqf
    have hq' : q = y ∨ q ∈ ctxLeaves fs := by simpa using hq
    rcases hq' with rfl | hq'
    · simp [hfree] at hqf
    · exact ⟨hq', hother q hq'⟩
  · intro q hq _
    exact ⟨by simp [hq], hother q hq⟩

/-- With its free buddy out of the tree and off the list, the parent is in hand. -/
theorem Held.merged (H : Held s L U (⟨side, p, .leaf y⟩ :: fs) x) (hz : z = x ∨ z = y)
    (hfree : (s.heap y).free = true) : Held (mergeState s y z p) L U fs p := by
  have hother : ∀ q ∈ ctxLeaves fs, mergeHeap s.heap z p q = s.heap q := fun q hq =>
    H.mergeHeap_ctx hz q (mem_ctxPtrs_of_mem_ctxLeaves hq)
  have hperm := H.removeFree_perm hfree
  refine ⟨H.minBlock, H.merge_shape hz, H.merge_fits hz, ?_, ?_, ?_, ?_⟩
  · have hsame : (ctxLeaves fs).filter (fun q => ((mergeState s y z p).heap q).free) = _ :=
      filter_free_congr hother
    rw [hsame]
    exact hperm
  · have hsorted : (s.removeFree y).freeList.Pairwise (Before s.heap) :=
      H.sorted.sublist List.filter_sublist
    refine pairwise_before_congr ?_ hsorted
    intro q hq
    exact hother q (List.mem_filter.1 (hperm.mem_iff.1 hq)).1
  · refine H.noTwins.2.2.congr ?_
    intro q hq
    exact congrArg BuddyBlock.free (hother q hq)
  · exact (H.merge_keeps hz hfree).owned rfl H.owned

/-- The swap decides which of the two blocks is resized. -/
theorem Held.merge_state (H : Held s L U (⟨side, p, .leaf y⟩ :: fs) x)
    (below : Ptr → Ptr → Bool) :
    ∃ z, (z = x ∨ z = y) ∧ s.merge below x y = some (mergeState s y z p, some p) := by
  have hst := (stored_plug s.heap none _ (.leaf x)).1 H.shape.stored
  rcases hst with ⟨⟨hkids, _, hsib, _⟩, _, hxr, hxpar⟩
  rcases H.apart with ⟨hxy, hpx, hpy, _⟩
  have hkids' : ((s.heap p).left = some x ∧ (s.heap p).right = some y) ∨
      ((s.heap p).left = some y ∧ (s.heap p).right = some x) := by
    cases side
    · exact Or.inl hkids
    · exact Or.inr hkids
  exact merge_eq below hxpar hsib.2.2 hxr hsib.2.1 hkids' hxy hpx hpy

/-- One turn of the merge loop: the block in hand and its free buddy leave the tree, and their
parent, now a leaf, is in hand. -/
theorem Held.merge (H : Held s L U (⟨side, p, .leaf y⟩ :: fs) x) (hfree : (s.heap y).free = true)
    (below : Ptr → Ptr → Bool) :
    ∃ s', s.merge below x y = some (s', some p) ∧ Held s' L U fs p ∧
      KeepsGrants s (ctxLeaves (⟨side, p, .leaf y⟩ :: fs)) s' (ctxLeaves fs) ∧
      s'.blockMap = s.blockMap := by
  rcases H.merge_state below with ⟨z, hz, hmerge⟩
  exact ⟨_, hmerge, H.merged hz hfree, H.merge_keeps hz hfree, rfl⟩

end Merge

/-! ## Giving the block in hand back -/

/-- The state after the block `x` in hand is marked free and put on the free list. -/
def giveState (s : BuddySystem) (x : Ptr) : BuddySystem :=
  (s.modify x fun b => { b with free := true }).insertFree x

theorem giveState_self : (giveState s x).heap x = { s.heap x with free := true } := by
  simp [giveState, insertFree, BuddySystem.modify]

theorem Held.giveState_ctx (H : Held s L U ctx x) {p : Ptr} (hp : p ∈ ctxLeaves ctx) :
    (giveState s x).heap p = s.heap p := by
  have hpx := H.ne_of_mem_ctxLeaves hp
  simp [giveState, insertFree, BuddySystem.modify, hpx]

theorem Held.giveBack_keeps (H : Held s L U ctx x) :
    KeepsGrants s (ctxLeaves ctx) (giveState s x) (plug ctx (.leaf x)).leaves := by
  have hmem : ∀ p, p ∈ (plug ctx (.leaf x)).leaves ↔ p = x ∨ p ∈ ctxLeaves ctx := by
    intro p
    simpa using (leaves_plug_perm ctx (.leaf x)).mem_iff (a := p)
  refine KeepsGrants.of_agree ?_ ?_
  · intro p hp _
    exact ⟨(hmem p).2 (Or.inr hp), H.giveState_ctx hp⟩
  · intro p hp hfree
    rcases (hmem p).1 hp with rfl | hp
    · rw [giveState_self] at hfree
      simp at hfree
    · exact ⟨hp, H.giveState_ctx hp⟩

/-- When its sibling is not a free leaf, the block in hand goes on the free list. -/
theorem Held.giveBack (H : Held s L U ctx x)
    (hsib : NoTwinsCtx (fun p => (s.heap p).free) ctx true) :
    BuddyInv (giveState s x) L U (plug ctx (.leaf x)) := by
  have hctx : ∀ p ∈ ctxLeaves ctx, (giveState s x).heap p = s.heap p := fun _ => H.giveState_ctx
  refine ⟨H.minBlock, H.shape.update_leaf ⟨rfl, rfl, rfl⟩ ⟨rfl, rfl⟩, H.fits.update ⟨rfl, rfl⟩,
    ?_, ?_, ?_, ?_⟩
  · have hins : (giveState s x).freeList.Perm (x :: s.freeList) := insertFree_perm _ _
    have hperm := ((leaves_plug_perm ctx (.leaf x)).filter
      fun p => ((giveState s x).heap p).free).symm
    have hsame := filter_free_congr hctx
    have hcons : ([x] ++ ctxLeaves ctx).filter (fun p => ((giveState s x).heap p).free) =
        x :: (ctxLeaves ctx).filter fun p => (s.heap p).free := by
      simp [giveState_self, hsame]
    rw [Tree.leaves_leaf, hcons] at hperm
    exact (hins.trans (H.freePerm.cons x)).trans hperm
  · have hlist : ∀ q ∈ s.freeList, (giveState s x).heap q = s.heap q := fun q hq =>
      hctx q (H.mem_ctxLeaves_of_mem_freeList hq)
    have hne : ∀ q ∈ s.freeList,
        ((giveState s x).heap q).start ≠ ((giveState s x).heap x).start := by
      intro q hq
      rw [hlist q hq, giveState_self]
      exact H.start_ne (H.mem_ctxLeaves_of_mem_freeList hq)
    exact insertFree_sorted (s := s.modify x fun b => { b with free := true })
      (pairwise_before_congr hlist H.sorted) hne
  · refine (noTwins_plug ctx (.leaf x)).2 ⟨?_, trivial⟩
    have hfree : isFree (fun p => ((giveState s x).heap p).free) (.leaf x) = true := by
      simp [isFree, giveState_self]
    rw [hfree]
    refine hsib.congr ?_
    intro p hp
    rw [hctx p hp]
  · exact H.giveBack_keeps.owned rfl H.owned

/-! ## The merge loop -/

/-- The block in hand at the root has no buddy. -/
theorem Held.getBuddy_nil (H : Held s L U [] x) : s.getBuddy x = none := by
  have hpar : (s.heap x).parent = none := H.shape.stored.2.2
  simp [getBuddy, hpar]

/-- Below the root, the buddy is the root of the sibling tree. -/
theorem Held.getBuddy_cons {f : Frame} {fs : List Frame} (H : Held s L U (f :: fs) x) :
    s.getBuddy x = some f.sib.root := by
  have hst := (stored_plug s.heap none (f :: fs) (.leaf x)).1 H.shape.stored
  rcases hst with ⟨⟨hkids, _⟩, _, _, hxpar⟩
  have hxpar' : (s.heap x).parent = some f.top := hxpar
  have hne : f.sib.root ≠ x := by
    refine H.ne_of_mem_ctxPtrs ?_
    have hmem := Tree.root_mem_ptrs f.sib
    simp [hmem]
  rcases f with ⟨side, top, sib⟩
  cases side with
  | L =>
      have hl : (s.heap top).left = some x := hkids.1
      have hr : (s.heap top).right = some sib.root := hkids.2
      simp [getBuddy, hxpar', hl, hr]
  -- The first test of `getBuddy` fails: the left child is the sibling.
  | R =>
      have hl : (s.heap top).left = some sib.root := hkids.1
      simp [getBuddy, hxpar', hl, hne]

/-- The flag of the sibling's root says whether the sibling is a free leaf. -/
theorem Held.free_sib {f : Frame} {fs : List Frame} (H : Held s L U (f :: fs) x) :
    (s.heap f.sib.root).free = isFree (fun p => (s.heap p).free) f.sib := by
  cases hsib : f.sib with
  | leaf y => rfl
  | node y l r =>
      have hinner : (s.heap y).free = false := H.inner_ctx (by simp [hsib])
      simp [isFree, hinner]

/-- The merge loop terminates and gives the memory of the block in hand back. -/
theorem Held.mergeLoop (below : Ptr → Ptr → Bool) :
    ∀ {ctx : List Frame} {s : BuddySystem} {x : Ptr} {fuel : Nat}, Held s L U ctx x →
      ctx.length < fuel →
      ∃ s' t, loop (mergeStep below) fuel (s, some x) = some s' ∧ BuddyInv s' L U t ∧
        KeepsGrants s (ctxLeaves ctx) s' t.leaves ∧ s'.blockMap = s.blockMap := by
  intro ctx
  induction ctx with
  | nil =>
      -- No parent, so no buddy: the whole memory goes on the list.
      intro s x fuel H hlt
      rcases fuel with _ | fuel
      · exact absurd hlt (Nat.not_lt_zero _)
      · refine ⟨_, _, loop_exit fuel ?_, H.giveBack trivial, H.giveBack_keeps, rfl⟩
        simp [mergeStep, giveState, H.getBuddy_nil]
  | cons f fs ih =>
      intro s x fuel H hlt
      rcases fuel with _ | fuel
      · exact absurd hlt (Nat.not_lt_zero _)
      · by_cases hfree : (s.heap f.sib.root).free = true
        · -- A free buddy is a leaf: merge and go on with the parent.
          have hisFree := H.free_sib.symm.trans hfree
          rcases f with ⟨side, p, sib⟩
          cases sib with
          | node y l r => simp [isFree] at hisFree
          | leaf y =>
              rcases H.merge hfree below with ⟨s1, hmerge, H1, hkeeps1, hmap1⟩
              have hgo : mergeStep below (s, some x) = some (.inl (s1, some p)) := by
                have hfree' : (s.heap y).free = true := hfree
                have hbuddy : s.getBuddy x = some y := H.getBuddy_cons
                simp [mergeStep, hbuddy, hfree', hmerge]
              rcases ih H1 (Nat.lt_of_succ_lt_succ hlt) with ⟨s', t, hloop, hinv, hkeeps, hmap⟩
              refine ⟨s', t, ?_, hinv, hkeeps1.trans hkeeps, hmap.trans hmap1⟩
              rw [loop_again fuel hgo]
              exact hloop
        · -- The buddy is split or granted: the block in hand goes on the list.
          have hnot : isFree (fun p => (s.heap p).free) f.sib = false := by
            rw [← H.free_sib]
            simpa using hfree
          have hsib : NoTwinsCtx (fun p => (s.heap p).free) (f :: fs) true :=
            ⟨by simp [hnot], H.noTwins.2⟩
          refine ⟨_, _, loop_exit fuel ?_, H.giveBack hsib, H.giveBack_keeps, rfl⟩
          simp [mergeStep, giveState, H.getBuddy_cons, hfree]

/-! ## The whole request -/

/-- `releaseProcess` changes nothing for a process without a block, and otherwise takes back
exactly the block of that process. -/
theorem BuddyInv.release (I : BuddyInv s L U t) (below : Ptr → Ptr → Bool) {pid : Int}
    (hpid : pid ≠ 0) :
    (s.blockMap pid = none ∧ s.releaseProcess below pid = some s) ∨
    ∃ s' t' x, s.blockMap pid = some x ∧ s.releaseProcess below pid = some s' ∧
      BuddyInv s' L U t' ∧ s'.blockMap = Function.update s.blockMap pid none ∧
      (∀ p, Granted s' t' p ↔ Granted s t p ∧ p ≠ x) ∧
      (∀ p, Granted s t p → p ≠ x → s'.heap p = s.heap p) := by
  cases hmap : s.blockMap pid with
  | none =>
      left
      exact ⟨rfl, by simp [releaseProcess, hmap]⟩
  | some x =>
      right
      rcases I.hold hpid hmap with ⟨ctx, rfl, H⟩
      have hfuel : ctx.length < s.next + 1 := Nat.lt_succ_of_lt H.shape.length_ctx_lt
      rcases H.mergeLoop below hfuel with ⟨s', t', hloop, hinv, hkeeps, hmap'⟩
      -- Taking `x` in hand changes no other granted block.
      have hctx : ∀ p, (p ∈ ctxLeaves ctx ∧ ((holdState s x pid).heap p).free = false) ↔
          (Granted s (plug ctx (.leaf x)) p ∧ p ≠ x) := by
        intro p
        have hmem := (leaves_plug_perm ctx (.leaf x)).mem_iff (a := p)
        simp only [Granted, hmem, Tree.leaves_leaf, List.singleton_append, List.mem_cons]
        constructor
        · rintro ⟨hp, hpf⟩
          have hpx := H.ne_of_mem_ctxLeaves hp
          exact ⟨⟨Or.inr hp, holdState_ne pid hpx ▸ hpf⟩, hpx⟩
        · rintro ⟨⟨hp, hpf⟩, hpx⟩
          exact ⟨hp.resolve_left hpx, (holdState_ne pid hpx).symm ▸ hpf⟩
      refine ⟨s', t', x, rfl, ?_, hinv, ?_, ?_, ?_⟩
      · simp only [releaseProcess, hmap]
        exact hloop
      · rw [hmap']
        rfl
      · intro p
        exact (hkeeps.mem_iff p).trans (hctx p)
      · intro p hp hpx
        have hp1 := (hctx p).2 ⟨hp, hpx⟩
        exact (hkeeps.same p hp1.1 hp1.2).trans (holdState_ne pid hpx)

end Buddy
end OsLab
