import OsLab.Buddy.Runs

/-!
# Buddy allocator — history independence

Forgetting the pointers, the tree of a state is a `DTree`, and `BuddyInv` says that it is
coalesced.  The allocated leaves therefore determine the leaves of the tree and, because the free
list is sorted by a strict order on ranges, the free list as well.
-/

namespace OsLab
namespace Buddy

open Lib BuddySystem

variable {s : BuddySystem} {L U : Nat} {t : Tree}

/-! ## The tree without its pointers -/

def toDTree (fr : Ptr → Bool) : Tree → DTree
  | .leaf p => .leaf (fr p)
  | .node _ l r => .node (toDTree fr l) (toDTree fr r)

theorem toDTree_eq_leaf_iff {fr : Ptr → Bool} {t : Tree} :
    toDTree fr t = .leaf true ↔ isFree fr t = true := by
  cases t with
  | leaf p => simp [toDTree, isFree]
  | node p l r => simp [toDTree, isFree]

theorem coalesced_toDTree {fr : Ptr → Bool} :
    ∀ {t : Tree}, NoTwins fr t → (toDTree fr t).Coalesced
  | .leaf _, _ => trivial
  | .node p l r, hn => by
      refine ⟨?_, coalesced_toDTree hn.2.1, coalesced_toDTree hn.2.2⟩
      rw [toDTree_eq_leaf_iff, toDTree_eq_leaf_iff]
      exact hn.1

theorem Sized.fits_toDTree {h : Ptr → BuddyBlock} {fr : Ptr → Bool} :
    ∀ {t : Tree} {j : Nat} {st : Int}, Sized h L j st t → (toDTree fr t).Fits j
  | .leaf _, j, _, _ => by cases j <;> trivial
  | .node _ _ _, _, _, hs => by
      rcases hs with ⟨_, _, i, rfl, hl, hr⟩
      exact ⟨hl.fits_toDTree, hr.fits_toDTree⟩

/-- A leaf without its pointer: its range and its flag. -/
def leafView (s : BuddySystem) (p : Ptr) : (Int × Int) × Bool :=
  (range s.heap p, (s.heap p).free)

theorem Sized.blocks_toDTree :
    ∀ {t : Tree} {j : Nat} {st : Int}, Sized s.heap L j st t →
      (toDTree (fun p => (s.heap p).free) t).blocks j st = t.leaves.map (leafView s)
  | .leaf p, j, st, hs => by
      simp [toDTree, DTree.blocks, leafView, range, hs.1, hs.2.1]
  | .node p l r, j, st, hs => by
      rcases hs with ⟨_, _, i, rfl, hl, hr⟩
      simp [toDTree, DTree.blocks, hl.blocks_toDTree, hr.blocks_toDTree]

/-! ## The free list -/

/-- The order of the free list, on ranges. -/
def RangeBefore (b c : Int × Int) : Prop :=
  b.2 < c.2 ∨ (b.2 = c.2 ∧ c.1 < b.1)

theorem BuddyInv.ranges_sorted (I : BuddyInv s L U t) :
    (s.freeList.map (range s.heap)).Pairwise RangeBefore := by
  refine List.pairwise_map.2 (I.sorted.imp ?_)
  intro p q hpq
  simp only [Before, compareBlocks] at hpq
  simp only [RangeBefore, range]
  split_ifs at hpq with hsize
  · exact Or.inl (by simpa using hpq)
  · exact Or.inr ⟨by simpa using hsize, by simpa using hpq⟩

/-- The ranges on the free list are the ranges of the free leaves. -/
theorem BuddyInv.ranges_perm (I : BuddyInv s L U t) :
    (s.freeList.map (range s.heap)).Perm
      (((t.leaves.map (leafView s)).filter fun b => b.2).map Prod.fst) := by
  have hmap := I.freePerm.map (range s.heap)
  simpa [List.filter_map, leafView, Function.comp_def] using hmap

/-! ## History independence -/

/-- The allocated leaves of a state, as `(start, size)` pairs. -/
def allocated (s : BuddySystem) (t : Tree) : List (Int × Int) :=
  (t.leaves.filter fun p => !(s.heap p).free).map (range s.heap)

theorem mem_allocated_iff {b : Int × Int} :
    b ∈ allocated s t ↔ (b, false) ∈ t.leaves.map (leafView s) := by
  simp [allocated, leafView, and_comm, and_left_comm]

theorem BuddyInv.taken_iff (I : BuddyInv s L U t) (b : Int × Int) :
    DTree.Taken U 0 (toDTree (fun p => (s.heap p).free) t) b ↔ b ∈ allocated s t := by
  rw [DTree.Taken, I.shape.sized.blocks_toDTree, mem_allocated_iff]

theorem BuddyInv.leaves_eq {s₁ s₂ : BuddySystem} {t₁ t₂ : Tree} (I₁ : BuddyInv s₁ L U t₁)
    (I₂ : BuddyInv s₂ L U t₂) (hsame : ∀ b, b ∈ allocated s₁ t₁ ↔ b ∈ allocated s₂ t₂) :
    t₁.leaves.map (leafView s₁) = t₂.leaves.map (leafView s₂) := by
  have htree : toDTree (fun p => (s₁.heap p).free) t₁ = toDTree (fun p => (s₂.heap p).free) t₂ := by
    -- The allocated ranges determine a coalesced halving tree.
    have htaken : ∀ b, DTree.Taken U 0 (toDTree (fun p => (s₁.heap p).free) t₁) b ↔
        DTree.Taken U 0 (toDTree (fun p => (s₂.heap p).free) t₂) b := by
      intro b
      rw [I₁.taken_iff, I₂.taken_iff, hsame b]
    exact DTree.eq_of_taken_eq I₁.shape.sized.fits_toDTree I₂.shape.sized.fits_toDTree
      (coalesced_toDTree I₁.noTwins) (coalesced_toDTree I₂.noTwins) htaken
  rw [← I₁.shape.sized.blocks_toDTree, ← I₂.shape.sized.blocks_toDTree, htree]

theorem BuddyInv.freeList_eq {s₁ s₂ : BuddySystem} {t₁ t₂ : Tree} (I₁ : BuddyInv s₁ L U t₁)
    (I₂ : BuddyInv s₂ L U t₂) (hsame : ∀ b, b ∈ allocated s₁ t₁ ↔ b ∈ allocated s₂ t₂) :
    s₁.freeList.map (range s₁.heap) = s₂.freeList.map (range s₂.heap) := by
  have hleaves := I₁.leaves_eq I₂ hsame
  have hperm : (s₁.freeList.map (range s₁.heap)).Perm (s₂.freeList.map (range s₂.heap)) := by
    have h₁ := I₁.ranges_perm
    rw [hleaves] at h₁
    exact h₁.trans I₂.ranges_perm.symm
  refine List.Perm.eq_of_pairwise ?_ I₁.ranges_sorted I₂.ranges_sorted hperm
  -- The order is strict, so a sorted list is determined by its entries.
  intro b c _ _ hbc hcb
  simp only [RangeBefore] at hbc hcb
  omega

/-- A state without allocated leaves is one free block. -/
theorem BuddyInv.eq_root_of_none (I : BuddyInv s L U t) (hnone : allocated s t = []) :
    t = .leaf s.root ∧ s.freeList = [s.root] ∧ range s.heap s.root = (0, 2 ^ U) := by
  have htree : toDTree (fun p => (s.heap p).free) t = .leaf true := by
    have hno : ∀ b, ¬ DTree.Taken U 0 (toDTree (fun p => (s.heap p).free) t) b := by
      intro b
      rw [I.taken_iff, hnone]
      simp
    exact DTree.eq_leaf_of_no_taken I.shape.sized.fits_toDTree (coalesced_toDTree I.noTwins) hno
  have hfree := toDTree_eq_leaf_iff.1 htree
  cases t with
  -- A node is not a free leaf.
  | node p l r => simp [isFree] at hfree
  | leaf p =>
      have hp : p = s.root := I.shape.root_eq
      have hpf : (s.heap p).free = true := hfree
      have hroot := I.shape.sized.root_eq
      subst hp
      have hperm : s.freeList.Perm [s.root] := by simpa [hpf] using I.freePerm
      refine ⟨rfl, List.perm_singleton.1 hperm, ?_⟩
      exact Prod.ext hroot.2 hroot.1

/-- Two runs from the same initial memory that end with the same allocated leaves end with the same
leaves and the same free list, whatever the requests were.  No reachable tree has two free sibling
leaves, and when nothing is allocated the free list is the whole memory. -/
theorem history_independent (L U : Nat) (hLU : L ≤ U) (rs₁ rs₂ : List Request)
    (hv₁ : ∀ r ∈ rs₁, r.Valid) (hv₂ : ∀ r ∈ rs₂, r.Valid) :
    ∃ s₁ t₁ s₂ t₂,
      (init (2 ^ L) (2 ^ U)).processRequests rs₁ = some s₁ ∧ s₁.tree = some t₁ ∧
      (init (2 ^ L) (2 ^ U)).processRequests rs₂ = some s₂ ∧ s₂.tree = some t₂ ∧
      ((∀ b, b ∈ allocated s₁ t₁ ↔ b ∈ allocated s₂ t₂) →
        s₁.freeList.map (range s₁.heap) = s₂.freeList.map (range s₂.heap) ∧
        t₁.leaves.map (leafView s₁) = t₂.leaves.map (leafView s₂)) ∧
      NoTwins (fun p => (s₁.heap p).free) t₁ ∧
      (allocated s₁ t₁ = [] → s₁.freeList.map (range s₁.heap) = [(0, 2 ^ U)]) := by
  rcases (init_inv hLU).run hv₁ with ⟨s₁, t₁, hrun₁, I₁⟩
  rcases (init_inv hLU).run hv₂ with ⟨s₂, t₂, hrun₂, I₂⟩
  refine ⟨s₁, t₁, s₂, t₂, hrun₁, I₁.tree_eq, hrun₂, I₂.tree_eq, ?_, I₁.noTwins, ?_⟩
  · intro hsame
    exact ⟨I₁.freeList_eq I₂ hsame, I₁.leaves_eq I₂ hsame⟩
  · intro hnone
    rcases I₁.eq_root_of_none hnone with ⟨_, hlist, hrange⟩
    simp [hlist, hrange]

/-- Two runs of different lengths and orders that both leave one block allocated. -/
theorem history_independent_example :
    ∃ s₁ t₁ s₂ t₂,
      (init (2 ^ 0) (2 ^ 3)).processRequests
        [⟨1, 2, false, fun _ _ => false⟩, ⟨2, 1, false, fun _ _ => false⟩,
          ⟨2, 0, true, fun _ _ => true⟩] = some s₁ ∧ s₁.tree = some t₁ ∧
      (init (2 ^ 0) (2 ^ 3)).processRequests [⟨5, 3, false, fun _ _ => false⟩] = some s₂ ∧
        s₂.tree = some t₂ ∧
      ((∀ b, b ∈ allocated s₁ t₁ ↔ b ∈ allocated s₂ t₂) →
        s₁.freeList.map (range s₁.heap) = s₂.freeList.map (range s₂.heap) ∧
        t₁.leaves.map (leafView s₁) = t₂.leaves.map (leafView s₂)) ∧
      NoTwins (fun p => (s₁.heap p).free) t₁ ∧
      (allocated s₁ t₁ = [] → s₁.freeList.map (range s₁.heap) = [(0, 2 ^ 3)]) := by
  refine history_independent 0 3 (by decide) _ _ ?_ ?_
  · intro r hr
    simp only [List.mem_cons, List.not_mem_nil, or_false] at hr
    rcases hr with rfl | rfl | rfl <;> simp [Request.Valid]
  · intro r hr
    simp only [List.mem_cons, List.not_mem_nil, or_false] at hr
    rcases hr with rfl
    simp [Request.Valid]

end Buddy
end OsLab
