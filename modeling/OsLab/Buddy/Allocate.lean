import OsLab.Buddy.Invariant

/-!
# Buddy allocator — allocation keeps the invariant

`allocateProcess` takes the first block of the free list that is large enough (`BuddyInv.take`),
splits it while its half still exceeds the request (`Held.split`, once per turn), and grants what
is left in hand (`Held.grant`).  Marking the parents as allocated changes nothing: no internal node
of the tree is marked free (`BuddyInv.markParents`).
-/

namespace OsLab
namespace Buddy

open Lib BuddySystem

variable {s : BuddySystem} {L U : Nat} {t : Tree} {ctx : List Frame} {x : Ptr}

/-! ## Taking a block off the free list -/

/-- `takeFit` returns the first entry that is large enough. -/
theorem takeFit_some {h : Ptr → BuddyBlock} {size : Int} :
    ∀ {ps : List Ptr} {x : Ptr} {rest : List Ptr}, takeFit h size ps = some (x, rest) →
      ∃ pre post, ps = pre ++ x :: post ∧ rest = pre ++ post ∧ size ≤ (h x).size ∧
        ∀ q ∈ pre, (h q).size < size
  | [], x, rest, hfit => by simp [takeFit] at hfit
  | p :: ps, x, rest, hfit => by
      by_cases hp : (h p).size ≥ size
      · have heq : p = x ∧ ps = rest := by simpa [takeFit, hp] using hfit
        rcases heq with ⟨rfl, rfl⟩
        exact ⟨[], ps, rfl, rfl, hp, by simp⟩
      · -- `p` is too small; the rest of the list is searched.
        cases hrec : takeFit h size ps with
        | none => simp [takeFit, hp, hrec] at hfit
        | some out =>
            rcases out with ⟨y, ys⟩
            have heq : y = x ∧ p :: ys = rest := by simpa [takeFit, hp, hrec] using hfit
            rcases heq with ⟨rfl, rfl⟩
            rcases takeFit_some hrec with ⟨pre, post, rfl, rfl, hsize, hpre⟩
            refine ⟨p :: pre, post, rfl, rfl, hsize, ?_⟩
            intro q hq
            rcases List.mem_cons.1 hq with hq | hq
            · subst hq
              omega
            · exact hpre q hq

theorem takeFit_none {h : Ptr → BuddyBlock} {size : Int} :
    ∀ {ps : List Ptr}, takeFit h size ps = none → ∀ q ∈ ps, (h q).size < size
  | [], _, q, hq => by simp at hq
  | p :: ps, hfit, q, hq => by
      by_cases hp : (h p).size ≥ size
      · simp [takeFit, hp] at hfit
      · have hrec : takeFit h size ps = none := by simpa [takeFit, hp] using hfit
        rcases List.mem_cons.1 hq with hq | hq
        · subst hq
          omega
        · exact takeFit_none hrec q hq

/-- Removing a block from the free list puts it in hand. -/
theorem BuddyInv.take_at (I : BuddyInv s L U (plug ctx (.leaf x))) {pre post : List Ptr}
    (hlist : s.freeList = pre ++ x :: post) (hfree : (s.heap x).free = true) :
    Held { s with freeList := pre ++ post } L U ctx x := by
  have hlisted : s.freeList.Perm (x :: (pre ++ post)) := by
    rw [hlist]
    exact List.perm_middle
  have hperm : (x :: (pre ++ post)).Perm
      (x :: (ctxLeaves ctx).filter fun p => (s.heap p).free) := by
    have hleaves := (leaves_plug_perm ctx (.leaf x)).filter fun p => (s.heap p).free
    have h := (hlisted.symm.trans I.freePerm).trans hleaves
    simpa [List.filter_cons, hfree] using h
  refine ⟨I.minBlock, I.shape, I.fits, hperm.cons_inv, ?_, ?_, ?_⟩
  · -- A list without one entry is still sorted.
    have hsub : (pre ++ post).Sublist s.freeList := by
      rw [hlist]
      exact (List.Sublist.refl pre).append (List.sublist_cons_self x post)
    exact I.sorted.sublist hsub
  · exact ((noTwins_plug ctx (.leaf x)).1 I.noTwins).1.to_false
  · -- An owned block is not free, so it is not the block in hand.
    intro pid p hpid hp
    rcases I.owned pid p hpid hp with ⟨hleaf, hpfree, hrest⟩
    have hcons := (leaves_plug_perm ctx (.leaf x)).mem_iff.1 hleaf
    have hpx : p ≠ x := by
      intro hpx
      subst hpx
      simp [hfree] at hpfree
    have hctx : p ∈ ctxLeaves ctx := by simpa [hpx] using hcons
    exact ⟨hctx, hpfree, hrest⟩

/-- A block of the free list is a free leaf of the tree. -/
theorem BuddyInv.take (I : BuddyInv s L U t) {pre post : List Ptr}
    (hlist : s.freeList = pre ++ x :: post) :
    ∃ ctx, t = plug ctx (.leaf x) ∧ (s.heap x).free = true ∧
      Held { s with freeList := pre ++ post } L U ctx x := by
  have hmem : x ∈ t.leaves.filter fun p => (s.heap p).free :=
    I.freePerm.mem_iff.1 (by simp [hlist])
  have hleaf : x ∈ t.leaves := (List.mem_filter.1 hmem).1
  have hfree : (s.heap x).free = true := (List.mem_filter.1 hmem).2
  rcases exists_plug_of_mem_leaves hleaf with ⟨ctx, rfl⟩
  exact ⟨ctx, rfl, hfree, I.take_at hlist hfree⟩

/-! ## Splitting the block in hand -/

/-- The heap after a split of `x` into the new blocks `n` and `n + 1`. -/
def splitHeap (h : Ptr → BuddyBlock) (x n : Ptr) : Ptr → BuddyBlock :=
  let half := (h x).size.tdiv 2
  let h := Function.update h x
    { h x with left := some n, right := some (n + 1), free := false }
  let h := Function.update h n ⟨0, half, (h x).start, true, 0, none, none, some x⟩
  Function.update h (n + 1) ⟨0, half, (h x).start + half, true, 0, none, none, some x⟩

section SplitHeap

variable {h : Ptr → BuddyBlock} {n p : Ptr}

theorem splitHeap_right (hx : x < n) :
    splitHeap h x n (n + 1) =
      ⟨0, (h x).size.tdiv 2, (h x).start + (h x).size.tdiv 2, true, 0, none, none, some x⟩ := by
  have hxn : x ≠ n := Nat.ne_of_lt hx
  simp [splitHeap, hxn]

theorem splitHeap_left :
    splitHeap h x n n = ⟨0, (h x).size.tdiv 2, (h x).start, true, 0, none, none, some x⟩ := by
  simp [splitHeap]

theorem splitHeap_top (hx : x < n) :
    splitHeap h x n x = { h x with left := some n, right := some (n + 1), free := false } := by
  have hxn : x ≠ n := Nat.ne_of_lt hx
  have hxn' : x ≠ n + 1 := Nat.ne_of_lt (Nat.lt_succ_of_lt hx)
  simp [splitHeap, hxn, hxn']

theorem splitHeap_other (hp : p < n) (hpx : p ≠ x) : splitHeap h x n p = h p := by
  have hpn : p ≠ n := Nat.ne_of_lt hp
  have hpn' : p ≠ n + 1 := Nat.ne_of_lt (Nat.lt_succ_of_lt hp)
  simp [splitHeap, hpn, hpn', hpx]

end SplitHeap

/-- The state after a turn of the split loop with `x` in hand. -/
def splitState (s : BuddySystem) (x : Ptr) : BuddySystem :=
  ({ s with
      heap := splitHeap s.heap x s.next
      next := s.next + 1 + 1 } : BuddySystem).insertFree (s.next + 1)

theorem splitStep_again {size : Int} (hx : x < s.next)
    (hcond : (s.heap x).size.tdiv 2 > size ∧ (s.heap x).size.tdiv 2 ≥ s.minBlockSize) :
    splitStep size (s, x) = some (.inl (splitState s x, s.next)) := by
  have hxn : x ≠ s.next := Nat.ne_of_lt hx
  have hxn' : x ≠ s.next + 1 := Nat.ne_of_lt (Nat.lt_succ_of_lt hx)
  simp only [splitStep, hcond, and_self, if_true, BuddySystem.new, BuddySystem.modify]
  -- Both sides are the same state around two descriptions of the heap.
  refine congrArg (fun g => some (Sum.inl (BuddySystem.insertFree
    ⟨s.minBlockSize, s.root, s.blockMap, s.freeList, g, s.next + 1 + 1⟩ (s.next + 1), s.next))) ?_
  funext p
  by_cases h1 : p = s.next + 1
  · subst h1
    simp [splitHeap, hxn, hxn'.symm]
  · by_cases h2 : p = s.next
    · subst h2
      simp [splitHeap, hxn.symm]
    · by_cases h3 : p = x
      · subst h3
        simp [splitHeap, hxn, hxn']
      · simp [splitHeap, h1, h2, h3]

/-- Halving a block that is larger than the smallest one. -/
theorem half_level {j : Nat} (hhalf : (2 ^ j : Int).tdiv 2 ≥ 2 ^ L) :
    ∃ i, j = i + 1 ∧ L ≤ i ∧ (2 ^ j : Int).tdiv 2 = 2 ^ i := by
  have hposL : (0 : Int) < 2 ^ L := by positivity
  -- Half of a block of one byte is zero bytes, less than any smallest block.
  rcases j with _ | i
  · have hzero : (2 ^ 0 : Int).tdiv 2 = 0 := by decide
    omega
  · have hdiv : (2 ^ (i + 1) : Int).tdiv 2 = 2 ^ i := by
      rw [pow_succ]
      exact Int.mul_tdiv_cancel _ (by decide)
    rw [hdiv] at hhalf
    have hle : L ≤ i := by
      by_contra hlt
      have hpow : (2 : Int) ^ i < 2 ^ L := pow_lt_pow_right₀ (by decide) (by omega)
      omega
    exact ⟨i, rfl, hle, hdiv⟩

/-- Splitting touches nothing around the block in hand. -/
theorem Held.splitHeap_ctx (H : Held s L U ctx x) :
    ∀ p ∈ ctxPtrs ctx, splitHeap s.heap x s.next p = s.heap p := by
  intro p hp
  exact splitHeap_other (H.lt_next (by simp [hp])) (H.ne_of_mem_ctxPtrs hp)

/-- Splitting turns the leaf in hand into a node over two new leaves. -/
theorem Held.split_shape (H : Held s L U ctx x)
    (hhalf : (s.heap x).size.tdiv 2 ≥ s.minBlockSize) :
    Shape (splitHeap s.heap x s.next) (s.next + 1 + 1) s.root L U
      (plug ctx (.node x (.leaf s.next) (.leaf (s.next + 1)))) := by
  have hxlt : x < s.next := H.lt_next (by simp)
  have hxn : x ≠ s.next := Nat.ne_of_lt hxlt
  have hxn' : x ≠ s.next + 1 := Nat.ne_of_lt (Nat.lt_succ_of_lt hxlt)
  have htop := splitHeap_top (h := s.heap) hxlt
  have hleft := splitHeap_left (h := s.heap) (x := x) (n := s.next)
  have hright := splitHeap_right (h := s.heap) hxlt
  -- The new blocks are new to the context.
  have hnew : ∀ p, s.next ≤ p → p ∉ ctxPtrs ctx := by
    intro p hle hmem
    exact absurd (H.lt_next (List.mem_cons_of_mem x hmem)) (Nat.not_lt.2 hle)
  refine H.shape.refill H.splitHeap_ctx (Nat.le_add_right s.next 2) rfl ?_ (by simp [hxn, hxn']) ?_ ?_ ?_
  · have hst := (stored_plug s.heap none ctx (.leaf x)).1 H.shape.stored
    have hpar : (s.heap x).parent = holeParent none ctx := hst.2.2.2
    simp [Stored, Links.left, Links.right, Links.parent, htop, hleft, hright, hpar]
  · intro p hp
    have hp' : p = x ∨ p = s.next ∨ p = s.next + 1 := by simpa using hp
    rcases hp' with rfl | rfl | rfl
    · exact ⟨H.not_mem_ctxPtrs, Nat.lt_succ_of_lt (Nat.lt_succ_of_lt hxlt)⟩
    · exact ⟨hnew _ (le_refl _), Nat.lt_succ_of_lt (Nat.lt_succ_self _)⟩
    · exact ⟨hnew _ (Nat.le_succ _), Nat.lt_succ_self _⟩
  · -- The two halves of the range of `x`, each not below the smallest block.
    intro j a hleaf
    rcases hleaf with ⟨hsize, hstart, _⟩
    rw [hsize, H.minBlock] at hhalf
    rcases half_level hhalf with ⟨i, rfl, hLi, hdiv⟩
    simp [Sized, htop, hleft, hright, hdiv, hsize, hstart, hLi]
  · intro p hp
    have hpx : p = x := by simpa using hp
    rw [hpx, htop]

theorem Fits.split {h : Ptr → BuddyBlock} {n : Ptr} (hf : Fits h U) (hx : x < n)
    (hend : (h x).start + (h x).size ≤ 2 ^ U) : Fits (splitHeap h x n) U := by
  intro p
  have hfit := hf x
  have hdiv : (h x).size.tdiv 2 = (h x).size / 2 := Int.tdiv_eq_ediv_of_nonneg hfit.2.2.1
  by_cases hright : p = n + 1
  · rw [hright, splitHeap_right hx]
    simp only [hdiv]
    omega
  · by_cases hleft : p = n
    · rw [hleft, splitHeap_left]
      simp only [hdiv]
      omega
    · by_cases htop : p = x
      · rw [htop, splitHeap_top hx]
        exact hfit
      · have hother : splitHeap h x n p = h p := by simp [splitHeap, hright, hleft, htop]
        rw [hother]
        exact hf p

/-- The upper half starts at an address of its own. -/
theorem Held.split_start_ne (H : Held s L U ctx x)
    (hhalf : (s.heap x).size.tdiv 2 ≥ s.minBlockSize) {q : Ptr} (hq : q ∈ ctxLeaves ctx) :
    (splitHeap s.heap x s.next q).start ≠ (splitHeap s.heap x s.next (s.next + 1)).start := by
  have hperm := (leaves_plug_perm ctx (.node x (.leaf s.next) (.leaf (s.next + 1)))).map
    fun p => (splitHeap s.heap x s.next p).start
  have hnd := hperm.nodup_iff.1 (H.split_shape hhalf).sized.starts_nodup
  simp only [Tree.leaves_node, Tree.leaves_leaf, List.cons_append, List.nil_append,
    List.map_cons, List.nodup_cons] at hnd
  intro heq
  exact hnd.2.1 (heq ▸ List.mem_map_of_mem hq)

theorem Held.split_keeps (H : Held s L U ctx x) :
    KeepsGrants s (ctxLeaves ctx) (splitState s x)
      (ctxLeaves (⟨.L, x, .leaf (s.next + 1)⟩ :: ctx)) := by
  have hother : ∀ p ∈ ctxLeaves ctx, (splitState s x).heap p = s.heap p := fun p hp =>
    H.splitHeap_ctx p (mem_ctxPtrs_of_mem_ctxLeaves hp)
  refine KeepsGrants.of_agree ?_ ?_
  · intro p hp _
    exact ⟨by simp [hp], hother p hp⟩
  · intro p hp hfree
    have hp' : p = s.next + 1 ∨ p ∈ ctxLeaves ctx := by simpa using hp
    rcases hp' with rfl | hp'
    · have hright : (splitState s x).heap (s.next + 1) = _ :=
        splitHeap_right (H.lt_next List.mem_cons_self)
      rw [hright] at hfree
      simp at hfree
    · exact ⟨hp', hother p hp'⟩

/-- One turn of the split loop: the block in hand becomes a node, its lower half is in hand and its
upper half goes on the free list. -/
theorem Held.split (H : Held s L U ctx x) (hhalf : (s.heap x).size.tdiv 2 ≥ s.minBlockSize) :
    Held (splitState s x) L U (⟨.L, x, .leaf (s.next + 1)⟩ :: ctx) s.next := by
  have hxlt : x < s.next := H.lt_next List.mem_cons_self
  have hother : ∀ p ∈ ctxLeaves ctx, splitHeap s.heap x s.next p = s.heap p := fun p hp =>
    H.splitHeap_ctx p (mem_ctxPtrs_of_mem_ctxLeaves hp)
  refine ⟨H.minBlock, H.split_shape hhalf, H.fits.split hxlt H.end_le, ?_, ?_, ?_, ?_⟩
  · -- The free list and the leaves around the hand both get the upper half.
    have hins : (splitState s x).freeList.Perm ((s.next + 1) :: s.freeList) := insertFree_perm _ _
    have hright : ((splitState s x).heap (s.next + 1)).free = true := by
      have heq : (splitState s x).heap (s.next + 1) = _ := splitHeap_right hxlt
      rw [heq]
    have hsame : (ctxLeaves ctx).filter (fun p => ((splitState s x).heap p).free) = _ :=
      filter_free_congr hother
    have hfilter : (ctxLeaves (⟨.L, x, .leaf (s.next + 1)⟩ :: ctx)).filter
        (fun p => ((splitState s x).heap p).free) =
          (s.next + 1) :: (ctxLeaves ctx).filter fun p => (s.heap p).free := by
      simp [hright, hsame]
    rw [hfilter]
    exact hins.trans (H.freePerm.cons _)
  · have hlisted : ∀ q ∈ s.freeList, q ∈ ctxLeaves ctx := fun _ => H.mem_ctxLeaves_of_mem_freeList
    have hsorted : s.freeList.Pairwise (Before (splitHeap s.heap x s.next)) :=
      pairwise_before_congr (fun q hq => hother q (hlisted q hq)) H.sorted
    exact insertFree_sorted
      (s := { s with heap := splitHeap s.heap x s.next, next := s.next + 1 + 1 }) hsorted
      fun q hq => H.split_start_ne hhalf (hlisted q hq)
  · -- The lower half is in hand and not free, so the new siblings are no twins.
    refine ⟨by simp, trivial, H.noTwins.congr ?_⟩
    intro p hp
    exact congrArg BuddyBlock.free (hother p hp)
  · exact H.split_keeps.owned rfl H.owned

/-- The lower half. -/
theorem Held.split_hand (H : Held s L U ctx x)
    (hhalf : (s.heap x).size.tdiv 2 ≥ s.minBlockSize) :
    2 * ((splitState s x).heap s.next).size = (s.heap x).size ∧
      ((splitState s x).heap s.next).start = (s.heap x).start := by
  have hleft : (splitState s x).heap s.next = _ := splitHeap_left
  rcases H.shape.sized.of_plug with ⟨j, _, _, _, _, hleaf, _⟩
  have hsize := hleaf.1
  rw [hsize, H.minBlock] at hhalf
  rcases half_level hhalf with ⟨i, rfl, _, hdiv⟩
  rw [hleft, hsize, hdiv, pow_succ]
  exact ⟨mul_comm _ _, rfl⟩

/-- The split loop terminates with a block in hand that is large enough and cannot be halved any
more, cut from the lower end of the block it started with. -/
theorem Held.splitLoop {size : Int} (H : Held s L U ctx x) (hfit : size ≤ (s.heap x).size) :
    ∃ s' y ctx', loop (splitStep size) ((s.heap x).size.toNat + 1) (s, x) = some (s', y) ∧
      Held s' L U ctx' y ∧ KeepsGrants s (ctxLeaves ctx) s' (ctxLeaves ctx') ∧
      s'.blockMap = s.blockMap ∧ size ≤ (s'.heap y).size ∧
      (s'.heap y).start = (s.heap x).start ∧ (s'.heap y).size ≤ (s.heap x).size ∧
      ¬ ((s'.heap y).size.tdiv 2 > size ∧ (s'.heap y).size.tdiv 2 ≥ 2 ^ L) := by
  let Inv : BuddySystem × Ptr → Prop := fun v =>
    ∃ ctx', Held v.1 L U ctx' v.2 ∧ KeepsGrants s (ctxLeaves ctx) v.1 (ctxLeaves ctx') ∧
      v.1.blockMap = s.blockMap ∧ size ≤ (v.1.heap v.2).size ∧
      (v.1.heap v.2).start = (s.heap x).start ∧ (v.1.heap v.2).size ≤ (s.heap x).size
  let Post : BuddySystem × Ptr → Prop := fun v =>
    Inv v ∧ ¬ ((v.1.heap v.2).size.tdiv 2 > size ∧ (v.1.heap v.2).size.tdiv 2 ≥ 2 ^ L)
  -- Each turn halves the block in hand, so its size is the variant.
  have hturn : ∀ v, Inv v →
      (∃ v', splitStep size v = some (.inl v') ∧ Inv v' ∧
        (v'.1.heap v'.2).size.toNat < (v.1.heap v.2).size.toNat) ∨
      (∃ w, splitStep size v = some (.inr w) ∧ Post w) := by
    rintro ⟨s1, y⟩ ⟨ctx1, H1, hk1, hmap1, hfit1, hstart1, hle1⟩
    simp only at H1 hk1 hmap1 hfit1 hstart1 hle1
    by_cases hcond : (s1.heap y).size.tdiv 2 > size ∧ (s1.heap y).size.tdiv 2 ≥ s1.minBlockSize
    · left
      have hgo : splitStep size (s1, y) = some (.inl (splitState s1 y, s1.next)) :=
        splitStep_again (H1.lt_next List.mem_cons_self) hcond
      have H2 := H1.split hcond.2
      rcases H1.split_hand hcond.2 with ⟨hsize2, hstart2⟩
      have hpos := H2.size_pos
      have hhalf : (s1.heap y).size.tdiv 2 = ((splitState s1 y).heap s1.next).size := by
        rw [← hsize2]
        exact Int.mul_tdiv_cancel_left _ (by decide)
      have hfit2 : size ≤ ((splitState s1 y).heap s1.next).size := le_of_lt (hhalf ▸ hcond.1)
      refine ⟨(splitState s1 y, s1.next), hgo,
        ⟨_, H2, hk1.trans H1.split_keeps, hmap1, hfit2, hstart2.trans hstart1, ?_⟩, ?_⟩
      · simp only
        omega
      · simp only
        omega
    · right
      -- The loop stops: half of the block would be too small.
      refine ⟨(s1, y), by simp [splitStep, hcond],
        ⟨ctx1, H1, hk1, hmap1, hfit1, hstart1, hle1⟩, ?_⟩
      rw [← H1.minBlock]
      exact hcond
  have hinit : Inv (s, x) := ⟨ctx, H, KeepsGrants.refl s _, rfl, hfit, rfl, le_refl _⟩
  rcases loop_total Inv (fun v => (v.1.heap v.2).size.toNat) Post hturn
      ((s.heap x).size.toNat + 1) (s, x) hinit (Nat.lt_succ_self _) with
    ⟨⟨s', y⟩, hloop, ⟨ctx', H', hk, hmap, hfit', hstart, hle⟩, hstop⟩
  exact ⟨s', y, ctx', hloop, H', hk, hmap, hfit', hstart, hle, hstop⟩

/-! ## Granting the block in hand -/

/-- The state after the block `x` in hand is granted. -/
def grantState (s : BuddySystem) (x : Ptr) (pid size : Int) : BuddySystem :=
  { s with
    heap := Function.update s.heap x { s.heap x with pId := pid, sizeUsed := size, free := false }
    blockMap := Function.update s.blockMap pid (some x) }

theorem grantState_self (pid size : Int) : (grantState s x pid size).heap x =
    { s.heap x with pId := pid, sizeUsed := size, free := false } := by
  simp [grantState]

theorem grantState_ne {p : Ptr} (pid size : Int) (hp : p ≠ x) :
    (grantState s x pid size).heap p = s.heap p := by
  simp [grantState, hp]

/-- Marking the block in hand as allocated ends the request. -/
theorem Held.grant {pid size : Int} (H : Held s L U ctx x) (hfit : size ≤ (s.heap x).size) :
    BuddyInv (grantState s x pid size) L U (plug ctx (.leaf x)) := by
  have hx := grantState_self (s := s) (x := x) pid size
  have hother : ∀ p ∈ ctxLeaves ctx, (grantState s x pid size).heap p = s.heap p := fun p hp =>
    grantState_ne pid size (H.ne_of_mem_ctxLeaves hp)
  have hleaves := leaves_plug_perm ctx (.leaf x)
  refine ⟨H.minBlock, H.shape.update_leaf ⟨rfl, rfl, rfl⟩ ⟨rfl, rfl⟩, H.fits.update ⟨rfl, rfl⟩,
    ?_, ?_, ?_, ?_⟩
  · -- `x` is a leaf again, but it is not free and not on the list.
    have hsame := filter_free_congr hother
    have hfilter : (Tree.leaves (.leaf x) ++ ctxLeaves ctx).filter
        (fun p => ((grantState s x pid size).heap p).free) =
          (ctxLeaves ctx).filter fun p => (s.heap p).free := by
      simp [hx, hsame]
    have hperm := (hleaves.filter fun p => ((grantState s x pid size).heap p).free).symm
    rw [hfilter] at hperm
    exact H.freePerm.trans hperm
  · exact pairwise_before_congr
      (fun q hq => hother q (H.mem_ctxLeaves_of_mem_freeList hq)) H.sorted
  · refine (noTwins_plug ctx (.leaf x)).2 ⟨?_, trivial⟩
    have hfree : isFree (fun p => ((grantState s x pid size).heap p).free) (.leaf x) = false := by
      simp [isFree, hx]
    rw [hfree]
    refine H.noTwins.congr ?_
    intro p hp
    rw [hother p hp]
  · -- The process gets `x`; the blocks of all others are around it.
    intro q p hq hp
    by_cases hqp : q = pid
    · have hpx : p = x := by
        simpa [grantState, hqp, eq_comm] using hp
      rw [hpx, hx]
      exact ⟨hleaves.mem_iff.2 (by simp), rfl, hqp.symm, hfit⟩
    · have hp' : s.blockMap q = some p := by simpa [grantState, hqp] using hp
      rcases H.owned q p hq hp' with ⟨hmem, hrest⟩
      rw [hother p hmem]
      exact ⟨hleaves.mem_iff.2 (by simp [hmem]), hrest⟩

/-- The context of a leaf is shorter than the number of blocks ever created. -/
theorem Shape.length_ctx_lt {h : Ptr → BuddyBlock} {next root : Ptr}
    (hs : Shape h next root L U (plug ctx (.leaf x))) : ctx.length < next := by
  have hperm := ptrs_plug_perm ctx (.leaf x)
  have hnd := hperm.nodup_iff.1 hs.nodup
  have hsub : (Tree.ptrs (.leaf x) ++ ctxPtrs ctx) ⊆ List.range next := by
    intro p hp
    exact List.mem_range.2 (hs.fresh p (hperm.mem_iff.2 hp))
  have hlen := (List.subperm_of_subset hnd hsub).length_le
  -- Every frame has a pointer of its own.
  have hctx : ctx.length ≤ (ctxPtrs ctx).length := by
    clear hperm hnd hsub hlen hs
    induction ctx with
    | nil => simp
    | cons f fs ih =>
        simp only [ctxPtrs_cons, List.length_cons, List.length_append]
        omega
  simp only [Tree.ptrs_leaf, List.length_append, List.length_cons, List.length_nil,
    List.length_range] at hlen
  omega

/-- Marking the parents of a leaf as allocated leaves the state as it is. -/
theorem BuddyInv.markParents (I : BuddyInv s L U (plug ctx (.leaf x))) :
    loop markStep (s.next + 1) (s, x) = some s := by
  -- The walk is an induction over the context of the current node.
  have hstep : ∀ (c : List Frame) (u : Tree) (fuel : Nat), plug ctx (.leaf x) = plug c u →
      c.length < fuel → loop markStep fuel (s, u.root) = some s := by
    intro c
    induction c with
    | nil =>
        intro u fuel hplug hlt
        rcases fuel with _ | fuel
        · exact absurd hlt (Nat.not_lt_zero _)
        · have hst : Stored s.heap none u := by
            have hst := I.shape.stored
            rw [hplug] at hst
            exact hst
          have hpar : (s.heap u.root).parent = none := by
            cases u with
            | leaf p => exact hst.2.2
            | node p l r => exact hst.2.2.1
          exact loop_exit fuel (by simp [markStep, hpar])
    | cons f fs ih =>
        intro u fuel hplug hlt
        rcases fuel with _ | fuel
        · exact absurd hlt (Nat.not_lt_zero _)
        · have hst := I.shape.stored
          rw [hplug] at hst
          have hst' := ((stored_plug s.heap none (f :: fs) u).1 hst).2
          have hpar : (s.heap u.root).parent = some f.top := by
            cases u with
            | leaf p => exact hst'.2.2
            | node p l r => exact hst'.2.2.1
          have hinner : (s.heap f.top).free = false := by
            refine I.shape.inner f.top ?_
            rw [hplug]
            exact (inner_plug_perm (f :: fs) u).mem_iff.2 (by simp)
          -- The flag that is cleared was never set.
          have hsame : s.modify f.top (fun b => { b with free := false }) = s := by
            have hb : ({ s.heap f.top with free := false } : BuddyBlock) = s.heap f.top := by
              rw [← hinner]
            simp only [BuddySystem.modify, hb, Function.update_eq_self]
          have hgo : markStep (s, u.root) = some (.inl (s, f.top)) := by
            simp only [markStep, hpar, hsame]
          rw [loop_again fuel hgo]
          have hrec := ih (f.fill u) fuel hplug (Nat.lt_of_succ_lt_succ hlt)
          simpa using hrec
  exact hstep ctx (.leaf x) (s.next + 1) rfl (Nat.lt_succ_of_lt I.shape.length_ctx_lt)

/-! ## The whole request -/

/-- The granted blocks of a state with tree `t`. -/
def Granted (s : BuddySystem) (t : Tree) (p : Ptr) : Prop :=
  p ∈ t.leaves ∧ (s.heap p).free = false

/-- The block `y` granted in `s'` is a lower part of the free block `x` of `s`. -/
structure CutFrom (s : BuddySystem) (x : Ptr) (size : Int) (s' : BuddySystem) (y : Ptr) :
    Prop where
  start_eq : (s'.heap y).start = (s.heap x).start
  size_le : (s'.heap y).size ≤ (s.heap x).size
  fit : size ≤ (s'.heap y).size

/-- When some free block is large enough, `allocateProcess` grants a part `y` of the first such
block `x`. -/
theorem BuddyInv.allocate_fit (I : BuddyInv s L U t) (pid : Int) {size : Int} {rest : List Ptr}
    (hfit : takeFit s.heap size s.freeList = some (x, rest)) :
    ∃ s' t' y, s.allocateProcess pid size = some s' ∧ BuddyInv s' L U t' ∧
      s'.blockMap = Function.update s.blockMap pid (some y) ∧ ¬ Granted s t y ∧
      (∀ p, Granted s' t' p ↔ Granted s t p ∨ p = y) ∧
      (∀ p, Granted s t p → s'.heap p = s.heap p) ∧ CutFrom s x size s' y := by
  rcases takeFit_some hfit with ⟨pre, post, hlist, rfl, hsize, _⟩
  rcases I.take hlist with ⟨ctx, rfl, hfree, H⟩
  rcases H.splitLoop hsize with
    ⟨s1, y, ctx1, hloop, H1, hk, hmap, hfit1, hstart, hle, _⟩
  have hgrant : BuddyInv (grantState s1 y pid size) L U (plug ctx1 (.leaf y)) := H1.grant hfit1
  -- The block taken was free, so the granted blocks are those around it.
  have hctx : ∀ p, Granted s (plug ctx (.leaf x)) p ↔
      (p ∈ ctxLeaves ctx ∧ (s.heap p).free = false) := by
    intro p
    have hmem := (leaves_plug_perm ctx (.leaf x)).mem_iff (a := p)
    simp only [Granted, hmem, Tree.leaves_leaf, List.singleton_append, List.mem_cons]
    constructor
    · rintro ⟨hp | hp, hpf⟩
      · simp [hp, hfree] at hpf
      · exact ⟨hp, hpf⟩
    · rintro ⟨hp, hpf⟩
      exact ⟨Or.inr hp, hpf⟩
  have hy := grantState_self (s := s1) (x := y) pid size
  refine ⟨grantState s1 y pid size, plug ctx1 (.leaf y), y, ?_, hgrant, ?_, ?_, ?_, ?_, ?_⟩
  · simp only [allocateProcess, findFreeBlock, hfit, hloop, Option.map_some]
    simpa [BuddySystem.modify, grantState] using hgrant.markParents
  · rw [grantState, ← hmap]
  · -- The granted block was in hand, and no granted block ever is.
    intro hgy
    have hy' := (hk.mem_iff y).2 ((hctx y).1 hgy)
    exact H1.ne_of_mem_ctxLeaves hy'.1 rfl
  · intro p
    rw [hctx p, ← hk.mem_iff p]
    have hmem := (leaves_plug_perm ctx1 (.leaf y)).mem_iff (a := p)
    simp only [Granted, hmem, Tree.leaves_leaf, List.singleton_append, List.mem_cons]
    by_cases hp : p = y
    · subst hp
      simp [grantState_self]
    · simp [hp, grantState_ne pid size hp]
  · intro p hp
    have hp0 := (hctx p).1 hp
    have hp1 := (hk.mem_iff p).2 hp0
    have hpy : p ≠ y := H1.ne_of_mem_ctxLeaves hp1.1
    exact (grantState_ne pid size hpy).trans (hk.same p hp0.1 hp0.2)
  · refine ⟨?_, ?_, ?_⟩
    · rw [hy]
      exact hstart
    · rw [hy]
      exact hle
    · rw [hy]
      exact hfit1

theorem allocateProcess_of_no_fit {pid size : Int} (hfit : takeFit s.heap size s.freeList = none) :
    s.allocateProcess pid size = some s := by
  simp [allocateProcess, findFreeBlock, hfit]

/-- `allocateProcess` either finds no block and changes nothing, or grants one more block `x`. -/
theorem BuddyInv.allocate (I : BuddyInv s L U t) (pid size : Int) :
    (s.allocateProcess pid size = some s ∧ ∀ p ∈ s.freeList, (s.heap p).size < size) ∨
    ∃ s' t' x, s.allocateProcess pid size = some s' ∧ BuddyInv s' L U t' ∧
      s'.blockMap = Function.update s.blockMap pid (some x) ∧ ¬ Granted s t x ∧
      (∀ p, Granted s' t' p ↔ Granted s t p ∨ p = x) ∧
      (∀ p, Granted s t p → s'.heap p = s.heap p) ∧
      ∃ p ∈ s.freeList, size ≤ (s.heap p).size := by
  cases hfit : takeFit s.heap size s.freeList with
  | none =>
      left
      exact ⟨allocateProcess_of_no_fit hfit, takeFit_none hfit⟩
  | some out =>
      right
      rcases out with ⟨x, rest⟩
      rcases takeFit_some hfit with ⟨pre, post, hlist, _, hsize, _⟩
      rcases I.allocate_fit pid hfit with
        ⟨s', t', y, hgo, hinv, hmap, hnew, hiff, hkeep, _⟩
      exact ⟨s', t', y, hgo, hinv, hmap, hnew, hiff, hkeep, x, by simp [hlist], hsize⟩

end Buddy
end OsLab
