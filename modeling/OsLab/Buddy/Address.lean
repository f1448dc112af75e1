import OsLab.Buddy.Runs

/-!
# Buddy allocator — independence of heap addresses

When two buddies merge, `releaseProcess` compares their addresses and resizes the one that comes
first.  Both leave the tree in the same turn, so the outcome shows nowhere: two runs that differ only
in the outcomes of these comparisons stay in lockstep.  The relation is `SameOn`: the two states are
equal except for blocks outside the tree.
-/

namespace OsLab
namespace Buddy

open Lib BuddySystem

variable {s₁ s₂ : BuddySystem} {L U : Nat} {t : Tree} {ctx : List Frame} {x : Ptr}

/-- The two states agree on everything but blocks outside `ps`. -/
structure SameOn (s₁ s₂ : BuddySystem) (ps : List Ptr) : Prop where
  minBlock : s₁.minBlockSize = s₂.minBlockSize
  root_eq : s₁.root = s₂.root
  map_eq : s₁.blockMap = s₂.blockMap
  list_eq : s₁.freeList = s₂.freeList
  next_eq : s₁.next = s₂.next
  heap_eq : ∀ p ∈ ps, s₁.heap p = s₂.heap p

theorem insertFree_congr {p : Ptr} (hlist : s₁.freeList = s₂.freeList)
    (hp : s₁.heap p = s₂.heap p) (hheap : ∀ q ∈ s₁.freeList, s₁.heap q = s₂.heap q) :
    (s₁.insertFree p).freeList = (s₂.insertFree p).freeList := by
  simp only [insertFree]
  rw [← hlist]
  refine lowerInsert_congr _ ?_
  intro q hq
  rw [hheap q hq, hp]

theorem takeFit_congr {h h' : Ptr → BuddyBlock} (size : Int) :
    ∀ {ps : List Ptr}, (∀ p ∈ ps, h p = h' p) → takeFit h size ps = takeFit h' size ps
  | [], _ => rfl
  | p :: ps, hsame => by
      have hp := hsame p (by simp)
      have hps := takeFit_congr size fun q hq => hsame q (List.mem_cons_of_mem p hq)
      simp only [takeFit, hp, hps]

/-! ## A block in hand in both states -/

/-- The same block is in hand in both states. -/
structure BothHeld (s₁ s₂ : BuddySystem) (L U : Nat) (ctx : List Frame) (x : Ptr) : Prop where
  left : Held s₁ L U ctx x
  right : Held s₂ L U ctx x
  same : SameOn s₁ s₂ (x :: ctxPtrs ctx)

namespace BothHeld

theorem hand_eq (B : BothHeld s₁ s₂ L U ctx x) : s₁.heap x = s₂.heap x :=
  B.same.heap_eq x (by simp)

theorem ctx_eq (B : BothHeld s₁ s₂ L U ctx x) {p : Ptr} (hp : p ∈ ctxPtrs ctx) :
    s₁.heap p = s₂.heap p :=
  B.same.heap_eq p (List.mem_cons_of_mem x hp)

theorem listed_eq (B : BothHeld s₁ s₂ L U ctx x) {p : Ptr} (hp : p ∈ s₁.freeList) :
    s₁.heap p = s₂.heap p :=
  B.ctx_eq (mem_ctxPtrs_of_mem_ctxLeaves (B.left.mem_ctxLeaves_of_mem_freeList hp))

/-- A turn of the split loop. -/
theorem split (B : BothHeld s₁ s₂ L U ctx x)
    (hhalf : (s₁.heap x).size.tdiv 2 ≥ s₁.minBlockSize) :
    BothHeld (splitState s₁ x) (splitState s₂ x) L U (⟨.L, x, .leaf (s₁.next + 1)⟩ :: ctx)
      s₁.next := by
  have hx := B.hand_eq
  have hnext := B.same.next_eq
  have hxlt₁ : x < s₁.next := B.left.lt_next (by simp)
  have hxlt₂ : x < s₂.next := B.right.lt_next (by simp)
  have H₂ : Held (splitState s₂ x) L U (⟨.L, x, .leaf (s₂.next + 1)⟩ :: ctx) s₂.next :=
    B.right.split (by rw [← hx, ← B.same.minBlock]; exact hhalf)
  have hctx : ∀ p ∈ ctxPtrs ctx, splitHeap s₁.heap x s₁.next p = splitHeap s₂.heap x s₂.next p := by
    intro p hp
    rw [B.left.splitHeap_ctx p hp, B.right.splitHeap_ctx p hp, B.ctx_eq hp]
  have hnew : splitHeap s₁.heap x s₁.next (s₁.next + 1) =
      splitHeap s₂.heap x s₂.next (s₁.next + 1) := by
    rw [splitHeap_right hxlt₁, hnext, splitHeap_right hxlt₂, hx]
  -- The two new blocks get the same pointers on both sides.
  rw [← hnext] at H₂
  refine ⟨B.left.split hhalf, H₂, B.same.minBlock, B.same.root_eq, B.same.map_eq, ?_, ?_, ?_⟩
  · rw [splitState, splitState, ← hnext]
    refine insertFree_congr B.same.list_eq ?_ ?_
    · rw [hnext] at hnew ⊢
      exact hnew
    · intro q hq
      have hq' := mem_ctxPtrs_of_mem_ctxLeaves (B.left.mem_ctxLeaves_of_mem_freeList hq)
      have hsame := hctx q hq'
      rw [hnext] at hsame ⊢
      exact hsame
  · simp [splitState, insertFree, hnext]
  · intro p hp
    simp only [ctxPtrs_cons, Tree.ptrs_leaf, List.mem_cons, List.cons_append, List.nil_append] at hp
    show splitHeap s₁.heap x s₁.next p = splitHeap s₂.heap x s₂.next p
    rcases hp with rfl | rfl | rfl | hp
    · rw [splitHeap_left, hnext, splitHeap_left, hx]
    · rw [splitHeap_top hxlt₁, splitHeap_top hxlt₂, hx, hnext]
    · exact hnew
    · exact hctx p hp

/-- The split loops go round equally often. -/
theorem splitLoop (B : BothHeld s₁ s₂ L U ctx x) {size : Int} {fuel : Nat} {s₁' : BuddySystem}
    {y : Ptr} (hloop : loop (splitStep size) fuel (s₁, x) = some (s₁', y)) :
    ∃ s₂' ctx', loop (splitStep size) fuel (s₂, x) = some (s₂', y) ∧
      BothHeld s₁' s₂' L U ctx' y := by
  let R : BuddySystem × Ptr → BuddySystem × Ptr → Prop := fun v w =>
    v.2 = w.2 ∧ ∃ ctx', BothHeld v.1 w.1 L U ctx' v.2
  have hturn : ∀ v w, R v w →
      (∃ v' w', splitStep size v = some (.inl v') ∧ splitStep size w = some (.inl w') ∧ R v' w') ∨
      (∃ v' w', splitStep size v = some (.inr v') ∧ splitStep size w = some (.inr w') ∧ R v' w') := by
    rintro ⟨u₁, z⟩ ⟨u₂, z'⟩ ⟨hz, ctx', B'⟩
    simp only at hz B'
    subst hz
    -- Both loops test the same block.
    have hcond_iff : ((u₂.heap z).size.tdiv 2 > size ∧ (u₂.heap z).size.tdiv 2 ≥ u₂.minBlockSize) ↔
        ((u₁.heap z).size.tdiv 2 > size ∧ (u₁.heap z).size.tdiv 2 ≥ u₁.minBlockSize) := by
      rw [B'.hand_eq, B'.same.minBlock]
    by_cases hcond : (u₁.heap z).size.tdiv 2 > size ∧ (u₁.heap z).size.tdiv 2 ≥ u₁.minBlockSize
    · left
      refine ⟨_, _, splitStep_again (B'.left.lt_next (by simp)) hcond,
        splitStep_again (B'.right.lt_next (by simp)) (hcond_iff.2 hcond), B'.same.next_eq, _,
        B'.split hcond.2⟩
    · right
      have hcond₂ := mt hcond_iff.1 hcond
      exact ⟨(u₁, z), (u₂, z), by simp [splitStep, hcond], by simp [splitStep, hcond₂], rfl, ctx', B'⟩
  rcases loop_lockstep R R hturn fuel (s₁, x) (s₂, x) (s₁', y) ⟨rfl, ctx, B⟩ hloop with
    ⟨⟨s₂', y'⟩, hloop₂, hy, ctx', B'⟩
  simp only at hy B'
  subst hy
  exact ⟨s₂', ctx', hloop₂, B'⟩

/-- The pointers of the tree are the block in hand and those around it. -/
theorem mem_ptrs_plug {p : Ptr} : p ∈ (plug ctx (.leaf x)).ptrs ↔ p ∈ x :: ctxPtrs ctx := by
  simpa using (ptrs_plug_perm ctx (.leaf x)).mem_iff (a := p)

theorem grant (B : BothHeld s₁ s₂ L U ctx x) (pid size : Int) :
    SameOn (grantState s₁ x pid size) (grantState s₂ x pid size) (plug ctx (.leaf x)).ptrs := by
  refine ⟨B.same.minBlock, B.same.root_eq, ?_, B.same.list_eq, B.same.next_eq, ?_⟩
  · simp only [grantState, B.same.map_eq]
  · intro p hp
    by_cases hpx : p = x
    · subst hpx
      rw [grantState_self, grantState_self, B.hand_eq]
    · rw [grantState_ne pid size hpx, grantState_ne pid size hpx]
      exact B.same.heap_eq p (mem_ptrs_plug.1 hp)

/-- A turn of the merge loop, whichever block each side resizes. -/
theorem merged {side : Side} {p y z₁ z₂ : Ptr} {fs : List Frame}
    (B : BothHeld s₁ s₂ L U (⟨side, p, .leaf y⟩ :: fs) x) (hz₁ : z₁ = x ∨ z₁ = y)
    (hz₂ : z₂ = x ∨ z₂ = y) (hfree : (s₁.heap y).free = true) :
    BothHeld (mergeState s₁ y z₁ p) (mergeState s₂ y z₂ p) L U fs p := by
  have hy : s₁.heap y = s₂.heap y := B.ctx_eq (by simp)
  have hp : s₁.heap p = s₂.heap p := B.ctx_eq (by simp)
  refine ⟨B.left.merged hz₁ hfree, B.right.merged hz₂ (hy ▸ hfree), B.same.minBlock,
    B.same.root_eq, B.same.map_eq, ?_, B.same.next_eq, ?_⟩
  · simp only [mergeState, removeFree, B.same.list_eq]
  · intro q hq
    show mergeHeap s₁.heap z₁ p q = mergeHeap s₂.heap z₂ p q
    rcases List.mem_cons.1 hq with rfl | hq
    · rw [mergeHeap_top, mergeHeap_top, hp]
    · -- The block that was resized is not among the blocks further out.
      rw [B.left.mergeHeap_ctx hz₁ q hq, B.right.mergeHeap_ctx hz₂ q hq]
      exact B.ctx_eq (by simp [hq])

theorem giveBack (B : BothHeld s₁ s₂ L U ctx x) :
    SameOn (giveState s₁ x) (giveState s₂ x) (plug ctx (.leaf x)).ptrs := by
  have hheap : ∀ p ∈ x :: ctxPtrs ctx, (giveState s₁ x).heap p = (giveState s₂ x).heap p := by
    intro p hp
    by_cases hpx : p = x
    · subst hpx
      rw [giveState_self, giveState_self, B.hand_eq]
    · simpa [giveState, insertFree, BuddySystem.modify, hpx] using B.same.heap_eq p hp
  refine ⟨B.same.minBlock, B.same.root_eq, B.same.map_eq, ?_, B.same.next_eq, ?_⟩
  · -- The comparisons of `lower_bound` see the same blocks.
    refine insertFree_congr B.same.list_eq (hheap x (by simp)) ?_
    intro q hq
    exact hheap q (List.mem_cons_of_mem x
      (mem_ctxPtrs_of_mem_ctxLeaves (B.left.mem_ctxLeaves_of_mem_freeList hq)))
  · intro p hp
    exact hheap p (mem_ptrs_plug.1 hp)

/-- The merge loops end in states that agree, for any outcomes of the comparisons. -/
theorem mergeLoop (below₁ below₂ : Ptr → Ptr → Bool) :
    ∀ {ctx : List Frame} {s₁ s₂ : BuddySystem} {x : Ptr} {fuel : Nat},
      BothHeld s₁ s₂ L U ctx x → ctx.length < fuel →
      ∃ s₁' s₂' t, loop (mergeStep below₁) fuel (s₁, some x) = some s₁' ∧
        loop (mergeStep below₂) fuel (s₂, some x) = some s₂' ∧
        BuddyInv s₁' L U t ∧ BuddyInv s₂' L U t ∧ SameOn s₁' s₂' t.ptrs := by
  intro ctx
  induction ctx with
  | nil =>
      intro s₁ s₂ x fuel B hlt
      rcases fuel with _ | fuel
      · exact absurd hlt (Nat.not_lt_zero _)
      · refine ⟨giveState s₁ x, giveState s₂ x, _, loop_exit fuel ?_, loop_exit fuel ?_,
          B.left.giveBack trivial, B.right.giveBack trivial, B.giveBack⟩
        · simp [mergeStep, giveState, B.left.getBuddy_nil]
        · simp [mergeStep, giveState, B.right.getBuddy_nil]
  | cons f fs ih =>
      intro s₁ s₂ x fuel B hlt
      rcases fuel with _ | fuel
      · exact absurd hlt (Nat.not_lt_zero _)
      · have hsibroot : s₁.heap f.sib.root = s₂.heap f.sib.root := by
          refine B.ctx_eq ?_
          have hmem := Tree.root_mem_ptrs f.sib
          simp [hmem]
        by_cases hfree : (s₁.heap f.sib.root).free = true
        · -- A free buddy is a leaf; both sides merge, each with a block of its choice.
          have hisFree := B.left.free_sib.symm.trans hfree
          rcases f with ⟨side, p, sib⟩
          cases sib with
          | node y l r => simp [isFree] at hisFree
          | leaf y =>
              have hfree₁ : (s₁.heap y).free = true := hfree
              have hfree₂ : (s₂.heap y).free = true := hsibroot ▸ hfree
              rcases B.left.merge_state below₁ with ⟨z₁, hz₁, hmerge₁⟩
              rcases B.right.merge_state below₂ with ⟨z₂, hz₂, hmerge₂⟩
              have hgo₁ : mergeStep below₁ (s₁, some x) =
                  some (.inl (mergeState s₁ y z₁ p, some p)) := by
                have hbuddy : s₁.getBuddy x = some y := B.left.getBuddy_cons
                simp [mergeStep, hbuddy, hfree₁, hmerge₁]
              have hgo₂ : mergeStep below₂ (s₂, some x) =
                  some (.inl (mergeState s₂ y z₂ p, some p)) := by
                have hbuddy : s₂.getBuddy x = some y := B.right.getBuddy_cons
                simp [mergeStep, hbuddy, hfree₂, hmerge₂]
              rw [loop_again fuel hgo₁, loop_again fuel hgo₂]
              exact ih (B.merged hz₁ hz₂ hfree₁) (Nat.lt_of_succ_lt_succ hlt)
        · -- A buddy in use stops both loops.
          have hfree₂ : ¬ (s₂.heap f.sib.root).free = true := hsibroot ▸ hfree
          have hsib₁ : NoTwinsCtx (fun p => (s₁.heap p).free) (f :: fs) true := by
            refine ⟨?_, B.left.noTwins.2⟩
            rw [← B.left.free_sib]
            simp [hfree]
          have hsib₂ : NoTwinsCtx (fun p => (s₂.heap p).free) (f :: fs) true := by
            refine ⟨?_, B.right.noTwins.2⟩
            rw [← B.right.free_sib]
            simp [hfree₂]
          refine ⟨giveState s₁ x, giveState s₂ x, _, loop_exit fuel ?_, loop_exit fuel ?_,
            B.left.giveBack hsib₁, B.right.giveBack hsib₂, B.giveBack⟩
          · simp [mergeStep, giveState, B.left.getBuddy_cons, hfree]
          · simp [mergeStep, giveState, B.right.getBuddy_cons, hfree₂]

end BothHeld

/-! ## Requests -/

/-- Two states with the same tree, equal on it. -/
structure Both (s₁ s₂ : BuddySystem) (L U : Nat) (t : Tree) : Prop where
  left : BuddyInv s₁ L U t
  right : BuddyInv s₂ L U t
  same : SameOn s₁ s₂ t.ptrs

namespace Both

theorem listed_eq (B : Both s₁ s₂ L U t) {p : Ptr} (hp : p ∈ s₁.freeList) :
    s₁.heap p = s₂.heap p := by
  have hleaf := (List.mem_filter.1 (B.left.freePerm.mem_iff.1 hp)).1
  exact B.same.heap_eq p (Tree.mem_ptrs_of_mem_leaves hleaf)

theorem allocate (B : Both s₁ s₂ L U t) (pid size : Int) :
    ∃ s₁' s₂' t', s₁.allocateProcess pid size = some s₁' ∧
      s₂.allocateProcess pid size = some s₂' ∧ Both s₁' s₂' L U t' := by
  have hfit₂ : takeFit s₂.heap size s₂.freeList = takeFit s₁.heap size s₁.freeList := by
    rw [← B.same.list_eq]
    exact (takeFit_congr size fun p hp => B.listed_eq hp).symm
  cases hfit : takeFit s₁.heap size s₁.freeList with
  | none =>
      exact ⟨s₁, s₂, t, allocateProcess_of_no_fit hfit,
        allocateProcess_of_no_fit (hfit₂.trans hfit), B⟩
  | some out =>
      rcases out with ⟨x, rest⟩
      rw [hfit] at hfit₂
      rcases takeFit_some hfit with ⟨pre, post, hlist, rfl, hsize, _⟩
      rcases B.left.take hlist with ⟨ctx, rfl, hfree, H₁⟩
      have hx : s₁.heap x = s₂.heap x := B.listed_eq (by simp [hlist])
      have H₂ := B.right.take_at (B.same.list_eq ▸ hlist) (hx ▸ hfree)
      have BH : BothHeld { s₁ with freeList := pre ++ post } { s₂ with freeList := pre ++ post }
          L U ctx x :=
        ⟨H₁, H₂, B.same.minBlock, B.same.root_eq, B.same.map_eq, rfl, B.same.next_eq,
          fun p hp => B.same.heap_eq p (BothHeld.mem_ptrs_plug.2 hp)⟩
      -- The left loop ends, and the right one with it in the same block.
      rcases H₁.splitLoop hsize with ⟨u₁, y, _, hloop₁, _, _, _, hfit₁, _⟩
      rcases BH.splitLoop hloop₁ with ⟨u₂, ctx', hloop₂, BY⟩
      have G₁ : BuddyInv (grantState u₁ y pid size) L U (plug ctx' (.leaf y)) := BY.left.grant hfit₁
      have G₂ : BuddyInv (grantState u₂ y pid size) L U (plug ctx' (.leaf y)) :=
        BY.right.grant (by rw [← BY.hand_eq]; exact hfit₁)
      refine ⟨grantState u₁ y pid size, grantState u₂ y pid size, plug ctx' (.leaf y), ?_, ?_,
        G₁, G₂, BY.grant pid size⟩
      · simp only [allocateProcess, findFreeBlock, hfit, hloop₁, Option.map_some]
        simpa [BuddySystem.modify, grantState] using G₁.markParents
      · -- The fuel is the size of the block taken, the same on both sides.
        rw [hx] at hloop₂
        simp only [allocateProcess, findFreeBlock, hfit₂, hloop₂, Option.map_some]
        simpa [BuddySystem.modify, grantState] using G₂.markParents

theorem release (B : Both s₁ s₂ L U t) (below₁ below₂ : Ptr → Ptr → Bool) {pid : Int}
    (hpid : pid ≠ 0) :
    ∃ s₁' s₂' t', s₁.releaseProcess below₁ pid = some s₁' ∧
      s₂.releaseProcess below₂ pid = some s₂' ∧ Both s₁' s₂' L U t' := by
  cases hmap : s₁.blockMap pid with
  | none =>
      have hmap₂ : s₂.blockMap pid = none := B.same.map_eq ▸ hmap
      exact ⟨s₁, s₂, t, by simp [releaseProcess, hmap], by simp [releaseProcess, hmap₂], B⟩
  | some x =>
      have hmap₂ : s₂.blockMap pid = some x := B.same.map_eq ▸ hmap
      rcases B.left.hold hpid hmap with ⟨ctx, rfl, H₁⟩
      have H₂ := B.right.hold_at hpid hmap₂
      have BH : BothHeld (holdState s₁ x pid) (holdState s₂ x pid) L U ctx x := by
        refine ⟨H₁, H₂, B.same.minBlock, B.same.root_eq, ?_, B.same.list_eq, B.same.next_eq, ?_⟩
        · simp only [holdState, B.same.map_eq]
        · intro p hp
          have hp' := B.same.heap_eq p (BothHeld.mem_ptrs_plug.2 hp)
          by_cases hpx : p = x
          · subst hpx
            simp [holdState, hp']
          · rw [holdState_ne pid hpx, holdState_ne pid hpx, hp']
      -- Each merge leaves one frame fewer, so the context bounds the turns.
      have hfuel : ctx.length < s₁.next + 1 := Nat.lt_succ_of_lt H₁.shape.length_ctx_lt
      rcases BH.mergeLoop below₁ below₂ hfuel with ⟨s₁', s₂', t', hloop₁, hloop₂, I₁, I₂, hsame⟩
      refine ⟨s₁', s₂', t', ?_, ?_, I₁, I₂, hsame⟩
      · simp only [releaseProcess, hmap]
        exact hloop₁
      · rw [B.same.next_eq] at hloop₂
        simp only [releaseProcess, hmap₂]
        exact hloop₂

end Both

/-- Two requests that differ at most in the outcomes of the pointer comparisons. -/
def SameAsked (r₁ r₂ : Request) : Prop :=
  r₁.pid = r₂.pid ∧ r₁.size = r₂.size ∧ r₁.terminate = r₂.terminate

theorem Both.request (B : Both s₁ s₂ L U t) {r₁ r₂ : Request} (hr : SameAsked r₁ r₂)
    (hv : r₁.Valid) :
    ∃ s₁' s₂' t', s₁.processRequest r₁ = some s₁' ∧ s₂.processRequest r₂ = some s₂' ∧
      Both s₁' s₂' L U t' := by
  rcases hr with ⟨hpid, hsize, hterm⟩
  simp only [processRequest, ← hterm, ← hpid, ← hsize]
  cases r₁.terminate with
  | false => exact B.allocate r₁.pid r₁.size
  | true => exact B.release r₁.below r₂.below hv.1

theorem Both.run :
    ∀ {rs₁ rs₂ : List Request} {s₁ s₂ : BuddySystem} {t : Tree}, List.Forall₂ SameAsked rs₁ rs₂ →
      (∀ r ∈ rs₁, r.Valid) → Both s₁ s₂ L U t →
      ∃ s₁' s₂' t', s₁.processRequests rs₁ = some s₁' ∧ s₂.processRequests rs₂ = some s₂' ∧
        Both s₁' s₂' L U t'
  | [], _, s₁, s₂, t, .nil, _, B => ⟨s₁, s₂, t, rfl, rfl, B⟩
  | r₁ :: rs₁, r₂ :: rs₂, s₁, s₂, t, .cons hr hrs, hv, B => by
      rcases B.request hr (hv r₁ (by simp)) with ⟨u₁, u₂, t', hgo₁, hgo₂, B'⟩
      rw [processRequests_cons hgo₁, processRequests_cons hgo₂]
      exact B'.run hrs fun r hmem => hv r (List.mem_cons_of_mem r₁ hmem)

/-- Runs that differ only in the outcomes of the pointer comparisons end with the same tree of the
same blocks, the same free list and the same `blockMap`. -/
theorem address_independent (L U : Nat) (hLU : L ≤ U) (rs₁ rs₂ : List Request)
    (hv : ∀ r ∈ rs₁, r.Valid) (hsame : List.Forall₂ SameAsked rs₁ rs₂) :
    ∃ s₁ s₂ t, (init (2 ^ L) (2 ^ U)).processRequests rs₁ = some s₁ ∧
      (init (2 ^ L) (2 ^ U)).processRequests rs₂ = some s₂ ∧
      s₁.tree = some t ∧ s₂.tree = some t ∧ (∀ p ∈ t.ptrs, s₁.heap p = s₂.heap p) ∧
      s₁.freeList = s₂.freeList ∧
      s₁.freeList.map (range s₁.heap) = s₂.freeList.map (range s₂.heap) ∧
      s₁.blockMap = s₂.blockMap ∧
      ∀ pid p, pid ≠ 0 → s₁.blockMap pid = some p → p ∈ t.leaves := by
  have I := init_inv hLU
  have B : Both (init (2 ^ L) (2 ^ U)) (init (2 ^ L) (2 ^ U)) L U (.leaf 0) :=
    ⟨I, I, rfl, rfl, rfl, rfl, rfl, fun _ _ => rfl⟩
  rcases Both.run hsame hv B with ⟨s₁, s₂, t, hrun₁, hrun₂, B'⟩
  refine ⟨s₁, s₂, t, hrun₁, hrun₂, B'.left.tree_eq, B'.right.tree_eq, B'.same.heap_eq,
    B'.same.list_eq, ?_, B'.same.map_eq, ?_⟩
  · rw [← B'.same.list_eq]
    refine List.map_congr_left ?_
    intro p hp
    rw [range, range, B'.listed_eq hp]
  · intro pid p hpid hp
    exact (B'.left.owned pid p hpid hp).1

/-- A cascade of merges, once with every comparison true and once with every comparison false. -/
theorem address_independent_cascade :
    ∃ s₁ s₂ t, (init (2 ^ 0) (2 ^ 3)).processRequests
        [⟨1, 1, false, fun _ _ => true⟩, ⟨1, 0, true, fun _ _ => true⟩] = some s₁ ∧
      (init (2 ^ 0) (2 ^ 3)).processRequests
        [⟨1, 1, false, fun _ _ => false⟩, ⟨1, 0, true, fun _ _ => false⟩] = some s₂ ∧
      s₁.tree = some t ∧ s₂.tree = some t ∧ (∀ p ∈ t.ptrs, s₁.heap p = s₂.heap p) ∧
      s₁.freeList = s₂.freeList ∧
      s₁.freeList.map (range s₁.heap) = s₂.freeList.map (range s₂.heap) ∧
      s₁.blockMap = s₂.blockMap ∧
      ∀ pid p, pid ≠ 0 → s₁.blockMap pid = some p → p ∈ t.leaves := by
  refine address_independent 0 3 (by decide) _ _ ?_ ?_
  · intro r hr
    simp only [List.mem_cons, List.not_mem_nil, or_false] at hr
    rcases hr with rfl | rfl <;> simp [Request.Valid]
  · exact .cons ⟨rfl, rfl, rfl⟩ (.cons ⟨rfl, rfl, rfl⟩ .nil)

end Buddy
end OsLab
