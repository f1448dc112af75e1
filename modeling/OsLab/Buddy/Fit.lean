import OsLab.Buddy.History

/-!
# Buddy allocator — completeness and best fit

An allocation succeeds exactly when the memory has room for it: some aligned range of a power of two
bytes, large enough for the request, meets no allocated leaf.  One direction is that the free leaves
are such ranges.  The other one is coalescing: in a coalesced tree a range without allocated leaves
lies inside one free leaf (`DTree.free_block_of_clear`).  The free list is sorted by size, so the
first block that is large enough is a smallest one.
-/

namespace OsLab
namespace Buddy

open Lib BuddySystem

variable {s : BuddySystem} {L U : Nat} {t : Tree}

/-- `findFreeBlock` finds a block for the request. -/
def Succeeds (s : BuddySystem) (size : Int) : Prop :=
  ∃ s' y, s.findFreeBlock size = some (s', some y)

/-- The range `[lo, hi)` overlaps no allocated leaf. -/
def Clear (s : BuddySystem) (t : Tree) (lo hi : Int) : Prop :=
  ∀ b ∈ allocated s t, b.1 + b.2 ≤ lo ∨ hi ≤ b.1

/-- Some aligned range `[k * 2 ^ j, (k + 1) * 2 ^ j)` of the memory has `size` bytes to spare. -/
def HasRoom (s : BuddySystem) (U : Nat) (t : Tree) (size : Int) : Prop :=
  ∃ (j : Nat) (k : Int), size ≤ 2 ^ j ∧ 0 ≤ k * 2 ^ j ∧ (k + 1) * 2 ^ j ≤ 2 ^ U ∧
    Clear s t (k * 2 ^ j) ((k + 1) * 2 ^ j)

/-- `x` is a smallest free leaf of at least `size` bytes. -/
structure BestFit (s : BuddySystem) (t : Tree) (size : Int) (x : Ptr) : Prop where
  leaf : x ∈ t.leaves
  free : (s.heap x).free = true
  fit : size ≤ (s.heap x).size
  least : ∀ z ∈ t.leaves, (s.heap z).free = true → size ≤ (s.heap z).size →
    (s.heap x).size ≤ (s.heap z).size

/-! ## Room in the memory and blocks on the list -/

theorem BuddyInv.mem_freeList_iff (I : BuddyInv s L U t) {p : Ptr} :
    p ∈ s.freeList ↔ p ∈ t.leaves ∧ (s.heap p).free = true := by
  rw [I.freePerm.mem_iff, List.mem_filter]

/-- A free leaf is an aligned range without allocated leaves. -/
theorem BuddyInv.hasRoom_of_free (I : BuddyInv s L U t) {size : Int} {p : Ptr}
    (hp : p ∈ s.freeList) (hsize : size ≤ (s.heap p).size) : HasRoom s U t size := by
  rcases I.mem_freeList_iff.1 hp with ⟨hleaf, hfree⟩
  rcases I.shape.sized.aligned (dvd_zero _) p (Tree.mem_ptrs_of_mem_leaves hleaf) with
    ⟨j, _, _, hj, k, hk⟩
  have hbounds := I.shape.sized.tiles.bounds.2 _ (List.mem_map_of_mem hleaf)
  simp only [range] at hbounds
  have hstart : (s.heap p).start = k * 2 ^ j := by rw [hk, hj]; ring
  have hend : (k + 1) * 2 ^ j = (s.heap p).start + (s.heap p).size := by rw [hstart, hj]; ring
  refine ⟨j, k, hj ▸ hsize, by omega, by omega, ?_⟩
  intro b hb
  obtain ⟨q, hq, rfl⟩ := List.mem_map.1 hb
  have hq' := List.mem_filter.1 hq
  -- An allocated leaf is another leaf.
  have hne : q ≠ p := by
    rintro rfl
    simp [hfree] at hq'
  have hapart := I.apart hq'.1 hleaf hne
  rw [hend, ← hstart]
  exact hapart

/-- A range without allocated leaves lies inside a free leaf. -/
theorem BuddyInv.free_of_hasRoom (I : BuddyInv s L U t) {size : Int} (hroom : HasRoom s U t size) :
    ∃ p ∈ s.freeList, size ≤ (s.heap p).size := by
  rcases hroom with ⟨j, k, hsize, hlo, hhi, hclear⟩
  have hpos : (0 : Int) < 2 ^ j := by positivity
  have hk : 0 ≤ k := nonneg_of_mul_nonneg_left hlo hpos
  have hmeets : ∀ b, DTree.Taken U 0 (toDTree (fun p => (s.heap p).free) t) b →
      b.1 + b.2 ≤ 0 + k * 2 ^ j ∨ 0 + (k + 1) * 2 ^ j ≤ b.1 := by
    intro b hb
    simpa using hclear b ((I.taken_iff b).1 hb)
  rcases DTree.free_block_of_clear I.shape.sized.fits_toDTree (coalesced_toDTree I.noTwins) hk hhi
      hmeets with ⟨b, hb, hin⟩
  rw [I.shape.sized.blocks_toDTree] at hb
  obtain ⟨p, hp, hview⟩ := List.mem_map.1 hb
  simp only [leafView, Prod.mk.injEq] at hview
  rcases hview with ⟨rfl, hfree⟩
  refine ⟨p, I.mem_freeList_iff.2 ⟨hp, hfree⟩, ?_⟩
  have hlen : (k + 1) * 2 ^ j = k * 2 ^ j + 2 ^ j := by ring
  simp only [range] at hin
  omega

/-! ## The first fit is a best fit -/

theorem Before.size_le {h : Ptr → BuddyBlock} {p q : Ptr} (hpq : Before h p q) :
    (h p).size ≤ (h q).size := by
  simp only [Before, compareBlocks] at hpq
  split_ifs at hpq with hne
  · exact le_of_lt (by simpa using hpq)
  · exact le_of_eq (by simpa using hne)

theorem BuddyInv.bestFit (I : BuddyInv s L U t) {size : Int} {x : Ptr} {rest : List Ptr}
    (hfit : takeFit s.heap size s.freeList = some (x, rest)) : BestFit s t size x := by
  rcases takeFit_some hfit with ⟨pre, post, hlist, _, hsize, hpre⟩
  have hx : x ∈ t.leaves ∧ (s.heap x).free = true := I.mem_freeList_iff.1 (by simp [hlist])
  refine ⟨hx.1, hx.2, hsize, ?_⟩
  intro z hz hzfree hzsize
  have hzlist : z ∈ pre ++ x :: post := hlist ▸ I.mem_freeList_iff.2 ⟨hz, hzfree⟩
  have hsorted := I.sorted
  rw [hlist, List.pairwise_append, List.pairwise_cons] at hsorted
  -- Entries before `x` are too small, and those after it are not smaller.
  rcases List.mem_append.1 hzlist with hz' | hz'
  · exact absurd (hpre z hz') (by omega)
  · rcases List.mem_cons.1 hz' with rfl | hz'
    · exact le_refl _
    · exact (hsorted.2.1.1 z hz').size_le

/-- The search finds a block exactly when the free list has one that is large enough. -/
theorem BuddyInv.succeeds_iff (I : BuddyInv s L U t) {size : Int} :
    Succeeds s size ↔ ∃ p ∈ s.freeList, size ≤ (s.heap p).size := by
  cases hfit : takeFit s.heap size s.freeList with
  | none =>
      have hsmall := takeFit_none hfit
      constructor
      · rintro ⟨s', y, hgo⟩
        simp [findFreeBlock, hfit] at hgo
      · rintro ⟨p, hp, hsize⟩
        exact absurd (hsmall p hp) (by omega)
  | some out =>
      rcases out with ⟨x, rest⟩
      rcases takeFit_some hfit with ⟨pre, post, hlist, rfl, hsize, _⟩
      rcases I.take hlist with ⟨ctx, _, _, H⟩
      rcases H.splitLoop hsize with ⟨s1, y, _, hloop, _⟩
      constructor
      · intro _
        exact ⟨x, by simp [hlist], hsize⟩
      · intro _
        refine ⟨s1, y, ?_⟩
        simp only [findFreeBlock, hfit]
        rw [hloop]
        rfl

/-! ## Completeness -/

/-- In every reachable state an allocation succeeds exactly when an aligned range that is large
enough overlaps no allocated leaf.  If it succeeds, the leaf taken off the free list is a smallest
free leaf that fits, and the block granted to the process lies inside it; if it fails, nothing
changes. -/
theorem allocation_complete (L U : Nat) (hLU : L ≤ U) (rs : List Request)
    (hv : ∀ r ∈ rs, r.Valid) (pid size : Int) (hpid : pid ≠ 0) :
    ∃ s t, (init (2 ^ L) (2 ^ U)).processRequests rs = some s ∧ s.tree = some t ∧
      (Succeeds s size ↔ HasRoom s U t size) ∧
      (Succeeds s size → ∃ x rest s' t' y,
        takeFit s.heap size s.freeList = some (x, rest) ∧ BestFit s t size x ∧
        s.allocateProcess pid size = some s' ∧ s'.tree = some t' ∧
        s'.blockMap pid = some y ∧ Granted s' t' y ∧ (s'.heap y).pId = pid ∧
        size ≤ (s'.heap y).size ∧ (s.heap x).start ≤ (s'.heap y).start ∧
        (s'.heap y).start + (s'.heap y).size ≤ (s.heap x).start + (s.heap x).size) ∧
      (¬ Succeeds s size → s.allocateProcess pid size = some s) := by
  rcases (init_inv hLU).run hv with ⟨s, t, hrun, I⟩
  refine ⟨s, t, hrun, I.tree_eq, ?_, ?_, ?_⟩
  · rw [I.succeeds_iff]
    constructor
    · rintro ⟨p, hp, hfit⟩
      exact I.hasRoom_of_free hp hfit
    · exact I.free_of_hasRoom
  · intro hok
    cases hfit : takeFit s.heap size s.freeList with
    | none =>
        rcases I.succeeds_iff.1 hok with ⟨p, hp, hple⟩
        exact absurd (takeFit_none hfit p hp) (by omega)
    | some out =>
        rcases out with ⟨x, rest⟩
        rcases I.allocate_fit pid hfit with
          ⟨s', t', y, hgo, I', hmap, _, hiff, _, hcut⟩
        have hy : s'.blockMap pid = some y := by simp [hmap]
        rcases I'.owned pid y hpid hy with ⟨_, _, hpId, _⟩
        refine ⟨x, rest, s', t', y, rfl, I.bestFit hfit, hgo, I'.tree_eq, hy,
          (hiff y).2 (Or.inr rfl), hpId, hcut.fit, le_of_eq hcut.start_eq.symm, ?_⟩
        have hstart := hcut.start_eq
        have hle := hcut.size_le
        omega
  · intro hno
    cases hfit : takeFit s.heap size s.freeList with
    | none => exact allocateProcess_of_no_fit hfit
    | some out =>
        rcases takeFit_some hfit with ⟨pre, post, hlist, _, hxsize, _⟩
        exact absurd (I.succeeds_iff.2 ⟨out.1, by simp [hlist], hxsize⟩) hno

/-- One free block is too small for a request of three bytes and the other one is not. -/
theorem allocation_complete_fragmented :
    ∃ s t, (init (2 ^ 0) (2 ^ 3)).processRequests
        [⟨1, 1, false, fun _ _ => false⟩, ⟨2, 1, false, fun _ _ => false⟩,
          ⟨1, 0, true, fun _ _ => true⟩] = some s ∧ s.tree = some t ∧
      (Succeeds s 3 ↔ HasRoom s 3 t 3) ∧
      (Succeeds s 3 → ∃ x rest s' t' y,
        takeFit s.heap 3 s.freeList = some (x, rest) ∧ BestFit s t 3 x ∧
        s.allocateProcess 5 3 = some s' ∧ s'.tree = some t' ∧
        s'.blockMap 5 = some y ∧ Granted s' t' y ∧ (s'.heap y).pId = 5 ∧
        3 ≤ (s'.heap y).size ∧ (s.heap x).start ≤ (s'.heap y).start ∧
        (s'.heap y).start + (s'.heap y).size ≤ (s.heap x).start + (s.heap x).size) ∧
      (¬ Succeeds s 3 → s.allocateProcess 5 3 = some s) := by
  refine allocation_complete 0 3 (by decide) _ ?_ 5 3 (by decide)
  intro r hr
  simp only [List.mem_cons, List.not_mem_nil, or_false] at hr
  rcases hr with rfl | rfl | rfl <;> simp [Request.Valid]

end Buddy
end OsLab
