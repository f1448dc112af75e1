import OsLab.Buddy.Release

/-!
# Buddy allocator — whole runs

Every request keeps `BuddyInv`, so it holds after every sequence of requests.  From it follow

* `representation_invariant` — tree, free list and flags agree and tile the memory;
* `grants_stable` — a grant keeps its block, unchanged, until that very block is released.
-/

namespace OsLab
namespace Buddy

open Lib BuddySystem

variable {s : BuddySystem} {L U : Nat} {t : Tree}

/-! ## The invariant along a run -/

theorem init_inv (hLU : L ≤ U) : BuddyInv (init (2 ^ L) (2 ^ U)) L U (.leaf 0) := by
  have hpos : (0 : Int) ≤ 2 ^ U := by positivity
  refine ⟨rfl, ⟨?_, rfl, by simp, ?_, ?_, by simp⟩, ?_, ?_, ?_, trivial, ?_⟩
  · exact ⟨rfl, rfl, rfl⟩
  · intro p hp
    have hp0 : p = 0 := by simpa using hp
    simp [hp0, init]
  · exact ⟨rfl, rfl, hLU⟩
  · intro p
    by_cases hp : p = 0
    · subst hp
      simp [init, hpos]
    · simp [init, hp, default, instInhabitedBuddyBlock.default, hpos]
  · simp [init]
  · simp [init]
  · -- Only the pid `0` has an entry, the root itself.
    intro pid p hpid hp
    simp [init, hpid] at hp

/-- One request, whatever it is, keeps the invariant and neither crashes nor diverges. -/
theorem BuddyInv.request (I : BuddyInv s L U t) {r : Request} (hr : r.Valid) :
    ∃ s' t', s.processRequest r = some s' ∧ BuddyInv s' L U t' := by
  cases hterm : r.terminate with
  | false =>
      rcases I.allocate r.pid r.size with ⟨hsame, _⟩ | ⟨s', t', _, hgo, hinv, _⟩
      · -- No block is large enough.
        exact ⟨s, t, by simp [processRequest, hterm, hsame], I⟩
      · exact ⟨s', t', by simp [processRequest, hterm, hgo], hinv⟩
  | true =>
      rcases I.release r.below hr.1 with ⟨_, hsame⟩ | ⟨s', t', _, _, hgo, hinv, _⟩
      · -- The process holds nothing.
        exact ⟨s, t, by simp [processRequest, hterm, hsame], I⟩
      · exact ⟨s', t', by simp [processRequest, hterm, hgo], hinv⟩

theorem processRequests_cons {r : Request} {rs : List Request} {s' : BuddySystem}
    (h : s.processRequest r = some s') :
    s.processRequests (r :: rs) = s'.processRequests rs := by
  simp [processRequests, h]

/-- Every run of valid requests ends, in a state that satisfies the invariant. -/
theorem BuddyInv.run :
    ∀ {rs : List Request} {s : BuddySystem} {t : Tree}, BuddyInv s L U t → (∀ r ∈ rs, r.Valid) →
      ∃ s' t', s.processRequests rs = some s' ∧ BuddyInv s' L U t'
  | [], s, t, I, _ => ⟨s, t, rfl, I⟩
  | r :: rs, s, t, I, hv => by
      rcases I.request (hv r (by simp)) with ⟨s1, t1, hgo, I1⟩
      rcases I1.run (fun q hq => hv q (List.mem_cons_of_mem r hq)) with ⟨s', t', hrun, I'⟩
      exact ⟨s', t', by rw [processRequests_cons hgo]; exact hrun, I'⟩

/-- The tree of the invariant is the one found by following the child pointers from `root`. -/
theorem BuddyInv.tree_eq (I : BuddyInv s L U t) : s.tree = some t := by
  have hdepth := Tree.depth_lt_of_nodup I.shape.nodup I.shape.fresh
  -- A tree of distinct blocks is less deep than there are blocks, so the fuel lasts.
  have hread := readTree_of_stored I.shape.stored hdepth
  rw [I.shape.root_eq] at hread
  exact hread

/-! ## The representation invariant -/

theorem Sized.aligned {h : Ptr → BuddyBlock} :
    ∀ {t : Tree} {j : Nat} {st : Int}, Sized h L j st t → (2 ^ j : Int) ∣ st →
      ∀ p ∈ t.ptrs, ∃ i, L ≤ i ∧ i ≤ j ∧ (h p).size = 2 ^ i ∧ (h p).size ∣ (h p).start
  | .leaf q, j, st, hs, hdvd, p, hp => by
      have hpq : p = q := by simpa using hp
      subst hpq
      refine ⟨j, hs.2.2, le_refl _, hs.1, ?_⟩
      rw [hs.1, hs.2.1]
      exact hdvd
  | .node q l r, j, st, hs, hdvd, p, hp => by
      have hLj := hs.level_le
      rcases hs with ⟨hsize, hstart, i, rfl, hl, hr⟩
      -- Half a multiple of `2 ^ (i + 1)` further is still a multiple of `2 ^ i`.
      have hhalf : (2 ^ i : Int) ∣ 2 ^ (i + 1) := pow_dvd_pow 2 (Nat.le_succ i)
      have hdl : (2 ^ i : Int) ∣ st := hhalf.trans hdvd
      have hdr : (2 ^ i : Int) ∣ st + 2 ^ i := dvd_add hdl (dvd_refl _)
      have hp' : p = q ∨ p ∈ l.ptrs ∨ p ∈ r.ptrs := by simpa using hp
      rcases hp' with hp' | hp' | hp'
      · subst hp'
        refine ⟨i + 1, hLj, le_refl _, hsize, ?_⟩
        rw [hsize, hstart]
        exact hdvd
      · rcases hl.aligned hdl p hp' with ⟨k, hLk, hki, hk⟩
        exact ⟨k, hLk, Nat.le_succ_of_le hki, hk⟩
      · rcases hr.aligned hdr p hp' with ⟨k, hLk, hki, hk⟩
        exact ⟨k, hLk, Nat.le_succ_of_le hki, hk⟩

/-- The two children of a node are its lower and its upper half. -/
def Halved (h : Ptr → BuddyBlock) (p : Ptr) : Prop :=
  ∃ l r, (h p).left = some l ∧ (h p).right = some r ∧
    2 * (h l).size = (h p).size ∧ 2 * (h r).size = (h p).size ∧
    (h l).start = (h p).start ∧ (h r).start = (h p).start + (h l).size

theorem Sized.halved {h : Ptr → BuddyBlock} :
    ∀ {t : Tree} {j : Nat} {st : Int} {par : Option Ptr}, Sized h L j st t → Stored h par t →
      ∀ p ∈ t.inner, Halved h p
  | .leaf _, _, _, _, _, _, p, hp => by simp at hp
  | .node q l r, j, st, par, hs, hst, p, hp => by
      rcases hs with ⟨hsize, hstart, i, rfl, hl, hr⟩
      rcases hst with ⟨hleft, hright, _, hstl, hstr⟩
      have hp' : p = q ∨ p ∈ l.inner ∨ p ∈ r.inner := by simpa using hp
      rcases hp' with hp' | hp' | hp'
      · subst hp'
        have hpow : (2 : Int) ^ (i + 1) = 2 * 2 ^ i := by rw [pow_succ]; ring
        have hrl := hl.root_eq
        have hrr := hr.root_eq
        refine ⟨l.root, r.root, hleft, hright, ?_, ?_, ?_, ?_⟩
        · rw [hrl.1, hsize, hpow]
        · rw [hrr.1, hsize, hpow]
        · rw [hrl.2, hstart]
        · rw [hrr.2, hstart, hrl.1]
      · exact hl.halved hstl p hp'
      · exact hr.halved hstr p hp'

/-- Tree, free list and flags describe one memory `[0, 2 ^ U)`. -/
structure Represents (s : BuddySystem) (L U : Nat) (t : Tree) : Prop where
  /-- the leaves, left to right, tile the memory -/
  tiles : Tiles 0 (2 ^ U) (t.leaves.map (range s.heap))
  distinct : t.ptrs.Nodup
  aligned : ∀ p ∈ t.ptrs, ∃ j, L ≤ j ∧ j ≤ U ∧ (s.heap p).size = 2 ^ j ∧
    (s.heap p).size ∣ (s.heap p).start
  halves : ∀ p ∈ t.inner, Halved s.heap p
  /-- the free list holds each free leaf once and nothing else -/
  listed : ∀ p, p ∈ s.freeList ↔ p ∈ t.leaves ∧ (s.heap p).free = true
  once : s.freeList.Nodup
  sorted : s.freeList.Pairwise fun p q => compareBlocks (s.heap p) (s.heap q) = true
  inner : ∀ p ∈ t.inner, (s.heap p).free = false
  /-- no size or end address leaves the range of a 32-bit `int` -/
  noOverflow : ∀ p, (s.heap p).size < 2 ^ 31 ∧ (s.heap p).start < 2 ^ 31

theorem BuddyInv.represents (I : BuddyInv s L U t) (hU : U ≤ 30) : Represents s L U t := by
  refine ⟨?_, I.shape.nodup, ?_, ?_, ?_, ?_, I.sorted, I.shape.inner, ?_⟩
  · simpa using I.shape.sized.tiles
  · exact I.shape.sized.aligned (dvd_zero _)
  · exact I.shape.sized.halved I.shape.stored
  · intro p
    rw [I.freePerm.mem_iff, List.mem_filter]
  · exact I.freePerm.nodup_iff.2 ((Tree.leaves_nodup I.shape.nodup).filter _)
  · intro p
    -- Ends are at most `2 ^ 30`, which an `int` holds.
    have hp := I.fits p
    have hpow : (2 : Int) ^ U ≤ 2 ^ 30 := pow_le_pow_right₀ (by decide) hU
    have h31 : (2 : Int) ^ 30 < 2 ^ 31 := by decide
    exact ⟨by omega, by omega⟩

/-- After every sequence of requests the allocator's three structures agree: the leaves tile
`[0, 2 ^ U)`, every node is an aligned power of two with its halves as children, the free list is the
sorted list of the free leaves, and no internal node is marked free. -/
theorem representation_invariant (L U : Nat) (hLU : L ≤ U) (hU : U ≤ 30) (rs : List Request)
    (hv : ∀ r ∈ rs, r.Valid) :
    ∃ s t, (init (2 ^ L) (2 ^ U)).processRequests rs = some s ∧ s.tree = some t ∧
      Represents s L U t := by
  rcases (init_inv hLU).run hv with ⟨s, t, hrun, I⟩
  exact ⟨s, t, hrun, I.tree_eq, I.represents hU⟩

/-- Two processes, a repeated allocation, a failed one and a release of an unknown process. -/
theorem representation_invariant_mixed :
    ∃ s t, (init (2 ^ 1) (2 ^ 4)).processRequests
        [⟨1, 3, false, fun _ _ => false⟩, ⟨1, 5, false, fun _ _ => false⟩,
          ⟨2, 9, false, fun _ _ => false⟩, ⟨7, 0, true, fun _ _ => true⟩,
          ⟨1, 0, true, fun _ _ => true⟩] = some s ∧ s.tree = some t ∧
      Represents s 1 4 t := by
  refine representation_invariant 1 4 (by decide) (by decide) _ ?_
  intro r hr
  simp only [List.mem_cons, List.not_mem_nil, or_false] at hr
  rcases hr with rfl | rfl | rfl | rfl | rfl <;> simp [Request.Valid]

/-! ## Grants are stable -/

/-- Some request of the run, at its turn, releases the block `p`. -/
def Releases (s : BuddySystem) : List Request → Ptr → Prop
  | [], _ => False
  | r :: rs, p =>
      (r.terminate = true ∧ s.blockMap r.pid = some p) ∨
        ∃ s', s.processRequest r = some s' ∧ Releases s' rs p

/-- What a grant promises about its block. -/
def SameGrant (b c : BuddyBlock) : Prop :=
  b.start = c.start ∧ b.size = c.size ∧ b.sizeUsed = c.sizeUsed ∧ b.pId = c.pId

/-- One request leaves every granted block except the one it releases as it is. -/
theorem BuddyInv.request_keeps (I : BuddyInv s L U t) {r : Request} (hr : r.Valid) :
    ∃ s' t', s.processRequest r = some s' ∧ BuddyInv s' L U t' ∧
      ∀ p, Granted s t p → ¬ (r.terminate = true ∧ s.blockMap r.pid = some p) →
        Granted s' t' p ∧ s'.heap p = s.heap p := by
  cases hterm : r.terminate with
  | false =>
      rcases I.allocate r.pid r.size with ⟨hsame, _⟩ | ⟨s', t', x, hgo, hinv, _, _, hiff, hkeep, _⟩
      · refine ⟨s, t, by simp [processRequest, hterm, hsame], I, ?_⟩
        intro p hp _
        exact ⟨hp, rfl⟩
      · refine ⟨s', t', by simp [processRequest, hterm, hgo], hinv, ?_⟩
        intro p hp _
        exact ⟨(hiff p).2 (Or.inl hp), hkeep p hp⟩
  | true =>
      rcases I.release r.below hr.1 with ⟨_, hsame⟩ |
        ⟨s', t', x, hmap, hgo, hinv, _, hiff, hkeep⟩
      · refine ⟨s, t, by simp [processRequest, hterm, hsame], I, ?_⟩
        intro p hp _
        exact ⟨hp, rfl⟩
      · refine ⟨s', t', by simp [processRequest, hterm, hgo], hinv, ?_⟩
        intro p hp hnot
        have hpx : p ≠ x := by
          intro hpx
          exact hnot ⟨rfl, hpx ▸ hmap⟩
        exact ⟨(hiff p).2 ⟨hp, hpx⟩, hkeep p hp hpx⟩

/-- A run leaves every granted block that it never releases as it is. -/
theorem BuddyInv.run_keeps :
    ∀ {rs : List Request} {s : BuddySystem} {t : Tree}, BuddyInv s L U t → (∀ r ∈ rs, r.Valid) →
      ∃ s' t', s.processRequests rs = some s' ∧ BuddyInv s' L U t' ∧
        ∀ p, Granted s t p → ¬ Releases s rs p → Granted s' t' p ∧ s'.heap p = s.heap p
  | [], s, t, I, _ => ⟨s, t, rfl, I, fun p hp _ => ⟨hp, rfl⟩⟩
  | r :: rs, s, t, I, hv => by
      rcases I.request_keeps (hv r (by simp)) with ⟨s1, t1, hgo, I1, hkeep1⟩
      rcases I1.run_keeps (fun q hq => hv q (List.mem_cons_of_mem r hq)) with
        ⟨s', t', hrun, I', hkeep⟩
      refine ⟨s', t', by rw [processRequests_cons hgo]; exact hrun, I', ?_⟩
      intro p hp hnot
      have hnot1 : ¬ (r.terminate = true ∧ s.blockMap r.pid = some p) := fun h => hnot (Or.inl h)
      have hnot2 : ¬ Releases s1 rs p := fun h => hnot (Or.inr ⟨s1, hgo, h⟩)
      rcases hkeep1 p hp hnot1 with ⟨hp1, hsame1⟩
      rcases hkeep p hp1 hnot2 with ⟨hp', hsame⟩
      exact ⟨hp', hsame.trans hsame1⟩

/-- The memory of `p` and the memory of `q` do not overlap. -/
def Apart (h : Ptr → BuddyBlock) (p q : Ptr) : Prop :=
  (h p).start + (h p).size ≤ (h q).start ∨ (h q).start + (h q).size ≤ (h p).start

instance (h : Ptr → BuddyBlock) : Std.Symm (Apart h) :=
  ⟨fun _ _ hab => Or.symm hab⟩

theorem BuddyInv.apart (I : BuddyInv s L U t) {p q : Ptr} (hp : p ∈ t.leaves)
    (hq : q ∈ t.leaves) (hpq : p ≠ q) : Apart s.heap p q := by
  have hpair := List.pairwise_map.1 I.shape.sized.tiles.pairwise
  have hapart : t.leaves.Pairwise (Apart s.heap) := hpair.imp fun hab => Or.inl hab
  exact hapart.forall hp hq hpq

/-- In every reachable state each process's entry is its own allocated leaf, large enough for the
request; different processes hold different, non-overlapping leaves; and whatever requests follow,
a granted leaf that they do not release stays in the tree with the same start, size, used size and
owner. -/
theorem grants_stable (L U : Nat) (hLU : L ≤ U) (rs : List Request) (hv : ∀ r ∈ rs, r.Valid) :
    ∃ s t, (init (2 ^ L) (2 ^ U)).processRequests rs = some s ∧ s.tree = some t ∧
      (∀ pid p, pid ≠ 0 → s.blockMap pid = some p →
        Granted s t p ∧ (s.heap p).pId = pid ∧ (s.heap p).sizeUsed ≤ (s.heap p).size) ∧
      (∀ pid pid' p q, pid ≠ 0 → pid' ≠ 0 → pid ≠ pid' → s.blockMap pid = some p →
        s.blockMap pid' = some q → p ≠ q ∧ Apart s.heap p q) ∧
      (∀ rs' : List Request, (∀ r ∈ rs', r.Valid) →
        ∃ s' t', s.processRequests rs' = some s' ∧ s'.tree = some t' ∧
          ∀ p, Granted s t p → ¬ Releases s rs' p →
            Granted s' t' p ∧ SameGrant (s'.heap p) (s.heap p)) := by
  rcases (init_inv hLU).run hv with ⟨s, t, hrun, I⟩
  refine ⟨s, t, hrun, I.tree_eq, ?_, ?_, ?_⟩
  · intro pid p hpid hp
    rcases I.owned pid p hpid hp with ⟨hleaf, hfree, hpId, hused⟩
    exact ⟨⟨hleaf, hfree⟩, hpId, hused⟩
  · intro pid pid' p q hpid hpid' hne hp hq
    rcases I.owned pid p hpid hp with ⟨hleafp, _, hpIdp, _⟩
    rcases I.owned pid' q hpid' hq with ⟨hleafq, _, hpIdq, _⟩
    -- A block names one owner.
    have hpq : p ≠ q := by
      intro hpq
      subst hpq
      exact hne (hpIdp.symm.trans hpIdq)
    exact ⟨hpq, I.apart hleafp hleafq hpq⟩
  · intro rs' hv'
    rcases I.run_keeps hv' with ⟨s', t', hrun', I', hkeep⟩
    refine ⟨s', t', hrun', I'.tree_eq, ?_⟩
    intro p hp hnot
    rcases hkeep p hp hnot with ⟨hp', hsame⟩
    rw [hsame]
    exact ⟨hp', rfl, rfl, rfl, rfl⟩

theorem grants_stable_two_processes :
    ∃ s t, (init (2 ^ 0) (2 ^ 3)).processRequests
        [⟨1, 2, false, fun _ _ => false⟩, ⟨2, 1, false, fun _ _ => false⟩] = some s ∧
      s.tree = some t ∧
      (∀ pid p, pid ≠ 0 → s.blockMap pid = some p →
        Granted s t p ∧ (s.heap p).pId = pid ∧ (s.heap p).sizeUsed ≤ (s.heap p).size) ∧
      (∀ pid pid' p q, pid ≠ 0 → pid' ≠ 0 → pid ≠ pid' → s.blockMap pid = some p →
        s.blockMap pid' = some q → p ≠ q ∧ Apart s.heap p q) ∧
      (∀ rs' : List Request, (∀ r ∈ rs', r.Valid) →
        ∃ s' t', s.processRequests rs' = some s' ∧ s'.tree = some t' ∧
          ∀ p, Granted s t p → ¬ Releases s rs' p →
            Granted s' t' p ∧ SameGrant (s'.heap p) (s.heap p)) := by
  refine grants_stable 0 3 (by decide) _ ?_
  intro r hr
  simp only [List.mem_cons, List.not_mem_nil, or_false] at hr
  rcases hr with rfl | rfl <;> simp [Request.Valid]

end Buddy
end OsLab
