import OsLab.Buddy.History

/-!
# Buddy allocator — leaked blocks

`allocateProcess` overwrites `blockMap[pid]` without looking at the old entry.  A process that holds
a block and is granted another one therefore loses the first for good: no later request can name it.
`noLeak_iff` says that this is the only way to lose memory, and that it always does.
-/

namespace OsLab
namespace Buddy

open Lib BuddySystem

variable {s : BuddySystem} {L U : Nat} {t : Tree}

/-- Every allocated leaf is the `blockMap` entry of some process. -/
def NoLeak (s : BuddySystem) (t : Tree) : Prop :=
  ∀ p, Granted s t p → ∃ pid, pid ≠ 0 ∧ s.blockMap pid = some p

/-- Releasing all processes that hold a block, in any order, leaves the root as the only block. -/
def ReleaseAllFrees (s : BuddySystem) (U : Nat) : Prop :=
  ∀ rs : List Request, (∀ r ∈ rs, r.pid ≠ 0 ∧ r.terminate = true) →
    (∀ pid, pid ≠ 0 → s.blockMap pid ≠ none → ∃ r ∈ rs, r.pid = pid) →
      ∃ s', s.processRequests rs = some s' ∧ s'.freeList = [s'.root] ∧
        range s'.heap s'.root = (0, 2 ^ U)

/-- The request does not grant a second block to a process that holds one: it is a release, or the
process holds nothing, or no free block is large enough. -/
def Careful (s : BuddySystem) (r : Request) : Prop :=
  r.terminate = false → s.blockMap r.pid ≠ none → ∀ p ∈ s.freeList, (s.heap p).size < r.size

/-- Every request of the run is `Careful` in the state in which it is processed. -/
def CarefulRun (s : BuddySystem) : List Request → Prop
  | [] => True
  | r :: rs => Careful s r ∧ ∀ s', s.processRequest r = some s' → CarefulRun s' rs

/-! ## One request -/

/-- A careful request keeps every allocated leaf in the map. -/
theorem BuddyInv.careful_keeps (I : BuddyInv s L U t) {r : Request} (hr : r.Valid)
    (hc : Careful s r) (hno : NoLeak s t) :
    ∃ s' t', s.processRequest r = some s' ∧ BuddyInv s' L U t' ∧ NoLeak s' t' := by
  cases hterm : r.terminate with
  | false =>
      rcases I.allocate r.pid r.size with ⟨hsame, _⟩ |
        ⟨s', t', x, hgo, hinv, hmap, _, hiff, _, hfit⟩
      · exact ⟨s, t, by simp [processRequest, hterm, hsame], I, hno⟩
      · refine ⟨s', t', by simp [processRequest, hterm, hgo], hinv, ?_⟩
        -- The request was granted, so the process held nothing before.
        have hnone : s.blockMap r.pid = none := by
          by_contra hsome
          rcases hfit with ⟨p, hp, hsize⟩
          exact absurd (hc hterm hsome p hp) (by omega)
        intro p hp
        rcases (hiff p).1 hp with hp | hp
        · rcases hno p hp with ⟨pid, hpid, hown⟩
          have hne : pid ≠ r.pid := by
            intro hne
            rw [hne, hnone] at hown
            cases hown
          exact ⟨pid, hpid, by simp [hmap, hne, hown]⟩
        · exact ⟨r.pid, hr.1, by simp [hmap, hp]⟩
  | true =>
      rcases I.release r.below hr.1 with ⟨_, hsame⟩ |
        ⟨s', t', x, hx, hgo, hinv, hmap, hiff, _⟩
      · exact ⟨s, t, by simp [processRequest, hterm, hsame], I, hno⟩
      · refine ⟨s', t', by simp [processRequest, hterm, hgo], hinv, ?_⟩
        -- The entry that is cleared is the one of the released leaf.
        intro p hp
        rcases (hiff p).1 hp with ⟨hp, hpx⟩
        rcases hno p hp with ⟨pid, hpid, hown⟩
        have hne : pid ≠ r.pid := by
          intro hne
          rw [hne, hx] at hown
          exact hpx (Option.some.inj hown).symm
        exact ⟨pid, hpid, by simp [hmap, hne, hown]⟩

/-- An allocated leaf that no process can name. -/
def Leaked (s : BuddySystem) (t : Tree) (p : Ptr) : Prop :=
  Granted s t p ∧ ∀ pid, pid ≠ 0 → s.blockMap pid ≠ some p

/-- A leaked leaf stays leaked, whatever is requested. -/
theorem BuddyInv.leaked_stays (I : BuddyInv s L U t) {r : Request} (hr : r.Valid) {p : Ptr}
    (hp : Leaked s t p) :
    ∃ s' t', s.processRequest r = some s' ∧ BuddyInv s' L U t' ∧ Leaked s' t' p := by
  cases hterm : r.terminate with
  | false =>
      rcases I.allocate r.pid r.size with ⟨hsame, _⟩ |
        ⟨s', t', x, hgo, hinv, hmap, hnew, hiff, _⟩
      · exact ⟨s, t, by simp [processRequest, hterm, hsame], I, hp⟩
      · refine ⟨s', t', by simp [processRequest, hterm, hgo], hinv,
          (hiff p).2 (Or.inl hp.1), ?_⟩
        intro pid hpid
        -- The new entry names the block that was in hand, not `p`.
        have hxp : x ≠ p := by
          intro hxp
          exact hnew (hxp ▸ hp.1)
        by_cases hne : pid = r.pid
        · simp [hmap, hne, hxp]
        · simpa [hmap, hne] using hp.2 pid hpid
  | true =>
      rcases I.release r.below hr.1 with ⟨_, hsame⟩ |
        ⟨s', t', x, hx, hgo, hinv, hmap, hiff, _⟩
      · exact ⟨s, t, by simp [processRequest, hterm, hsame], I, hp⟩
      · -- The released block is an entry of the map, and `p` is none.
        have hpx : p ≠ x := by
          intro hpx
          exact hp.2 r.pid hr.1 (hpx ▸ hx)
        refine ⟨s', t', by simp [processRequest, hterm, hgo], hinv, (hiff p).2 ⟨hp.1, hpx⟩, ?_⟩
        intro pid hpid
        by_cases hne : pid = r.pid
        · simp [hmap, hne]
        · simpa [hmap, hne] using hp.2 pid hpid

/-- A request that is not careful leaks the block its process held. -/
theorem BuddyInv.careless_leaks (I : BuddyInv s L U t) {r : Request} (hr : r.Valid)
    (hc : ¬ Careful s r) :
    ∃ s' t' p, s.processRequest r = some s' ∧ BuddyInv s' L U t' ∧ Leaked s' t' p := by
  simp only [Careful, not_forall, not_lt] at hc
  rcases hc with ⟨hterm, hsome, q, hq, hqsize⟩
  rcases Option.ne_none_iff_exists'.1 hsome with ⟨p, hp⟩
  rcases I.owned r.pid p hr.1 hp with ⟨hleaf, hfree, hpId, _⟩
  rcases I.allocate r.pid r.size with ⟨_, hsmall⟩ |
    ⟨s', t', x, hgo, hinv, hmap, hnew, hiff, _⟩
  · -- The free block `q` is large enough, so the request is granted.
    exact absurd (hsmall q hq) (by omega)
  · refine ⟨s', t', p, by simp [processRequest, hterm, hgo], hinv,
      (hiff p).2 (Or.inl ⟨hleaf, hfree⟩), ?_⟩
    intro pid hpid
    by_cases hne : pid = r.pid
    · have hxp : x ≠ p := by
        intro hxp
        exact hnew (hxp ▸ ⟨hleaf, hfree⟩)
      simp [hmap, hne, hxp]
    · -- Another process cannot hold `p`, because `p` names `r.pid` as its owner.
      intro hown
      have hown' : s.blockMap pid = some p := by simpa [hmap, hne] using hown
      exact hne ((I.owned pid p hpid hown').2.2.1.symm.trans hpId)

/-! ## Whole runs -/

theorem BuddyInv.careful_run :
    ∀ {rs : List Request} {s : BuddySystem} {t : Tree}, BuddyInv s L U t → NoLeak s t →
      (∀ r ∈ rs, r.Valid) → CarefulRun s rs →
      ∃ s' t', s.processRequests rs = some s' ∧ BuddyInv s' L U t' ∧ NoLeak s' t'
  | [], s, t, I, hno, _, _ => ⟨s, t, rfl, I, hno⟩
  | r :: rs, s, t, I, hno, hv, hc => by
      rcases I.careful_keeps (hv r (by simp)) hc.1 hno with ⟨s1, t1, hgo, I1, hno1⟩
      rcases I1.careful_run hno1 (fun q hq => hv q (List.mem_cons_of_mem r hq)) (hc.2 s1 hgo) with
        ⟨s', t', hrun, I', hno'⟩
      exact ⟨s', t', by rw [processRequests_cons hgo]; exact hrun, I', hno'⟩

theorem BuddyInv.leaked_run :
    ∀ {rs : List Request} {s : BuddySystem} {t : Tree} {p : Ptr}, BuddyInv s L U t →
      Leaked s t p → (∀ r ∈ rs, r.Valid) →
      ∃ s' t', s.processRequests rs = some s' ∧ BuddyInv s' L U t' ∧ Leaked s' t' p
  | [], s, t, _, I, hp, _ => ⟨s, t, rfl, I, hp⟩
  | r :: rs, s, t, p, I, hp, hv => by
      rcases I.leaked_stays (hv r (by simp)) hp with ⟨s1, t1, hgo, I1, hp1⟩
      rcases I1.leaked_run hp1 (fun q hq => hv q (List.mem_cons_of_mem r hq)) with
        ⟨s', t', hrun, I', hp'⟩
      exact ⟨s', t', by rw [processRequests_cons hgo]; exact hrun, I', hp'⟩

theorem BuddyInv.careless_run :
    ∀ {rs : List Request} {s : BuddySystem} {t : Tree}, BuddyInv s L U t →
      (∀ r ∈ rs, r.Valid) → ¬ CarefulRun s rs →
      ∃ s' t' p, s.processRequests rs = some s' ∧ BuddyInv s' L U t' ∧ Leaked s' t' p
  | [], s, t, _, _, hc => absurd trivial hc
  | r :: rs, s, t, I, hv, hc => by
      have hv' : ∀ q ∈ rs, q.Valid := fun q hq => hv q (List.mem_cons_of_mem r hq)
      by_cases hr : Careful s r
      · -- The careless request comes later.
        rcases I.request (hv r (by simp)) with ⟨s1, t1, hgo, I1⟩
        have hc1 : ¬ CarefulRun s1 rs := by
          intro hrest
          refine hc ⟨hr, fun s2 hgo2 => ?_⟩
          have heq : s1 = s2 := Option.some.inj (hgo.symm.trans hgo2)
          exact heq ▸ hrest
        rcases I1.careless_run hv' hc1 with ⟨s', t', p, hrun, I', hp⟩
        exact ⟨s', t', p, by rw [processRequests_cons hgo]; exact hrun, I', hp⟩
      · -- This request leaks a leaf, and the rest of the run does not bring it back.
        rcases I.careless_leaks (hv r (by simp)) hr with ⟨s1, t1, p, hgo, I1, hp⟩
        rcases I1.leaked_run hp hv' with ⟨s', t', hrun, I', hp'⟩
        exact ⟨s', t', p, by rw [processRequests_cons hgo]; exact hrun, I', hp'⟩

/-- A run of releases keeps every allocated leaf in the map, and the processes that still hold a
block afterwards are not among the released ones. -/
theorem BuddyInv.release_run :
    ∀ {rs : List Request} {s : BuddySystem} {t : Tree}, BuddyInv s L U t → NoLeak s t →
      (∀ r ∈ rs, r.pid ≠ 0 ∧ r.terminate = true) →
      ∃ s' t', s.processRequests rs = some s' ∧ BuddyInv s' L U t' ∧ NoLeak s' t' ∧
        ∀ pid, s'.blockMap pid ≠ none → s.blockMap pid ≠ none ∧ ∀ r ∈ rs, r.pid ≠ pid
  | [], s, t, I, hno, _ => ⟨s, t, rfl, I, hno, by simp⟩
  | r :: rs, s, t, I, hno, hv => by
      rcases hv r (by simp) with ⟨hpid, hterm⟩
      have hvalid : r.Valid := ⟨hpid, by simp [hterm]⟩
      have hcareful : Careful s r := by simp [Careful, hterm]
      rcases I.careful_keeps hvalid hcareful hno with ⟨s1, t1, hgo, I1, hno1⟩
      -- One release clears one entry and adds none.
      have hmap1 : ∀ pid, s1.blockMap pid ≠ none → s.blockMap pid ≠ none ∧ r.pid ≠ pid := by
        intro pid hsome
        have hgo' : s.releaseProcess r.below r.pid = some s1 := by
          simpa [processRequest, hterm] using hgo
        rcases I.release r.below hpid with ⟨hnone, hsame⟩ | ⟨s2, _, _, _, hrel, _, hmap, _⟩
        · have heq : s = s1 := Option.some.inj (hsame.symm.trans hgo')
          subst heq
          refine ⟨hsome, ?_⟩
          rintro rfl
          exact hsome hnone
        · have heq : s2 = s1 := Option.some.inj (hrel.symm.trans hgo')
          subst heq
          have hne : pid ≠ r.pid := by
            rintro rfl
            simp [hmap] at hsome
          exact ⟨by simpa [hmap, hne] using hsome, Ne.symm hne⟩
      rcases I1.release_run hno1 (fun q hq => hv q (List.mem_cons_of_mem r hq)) with
        ⟨s', t', hrun, I', hno', hmap'⟩
      refine ⟨s', t', by rw [processRequests_cons hgo]; exact hrun, I', hno', ?_⟩
      intro pid hsome
      rcases hmap' pid hsome with ⟨hsome1, hrest⟩
      rcases hmap1 pid hsome1 with ⟨hsome0, hr⟩
      refine ⟨hsome0, ?_⟩
      intro q hq
      rcases List.mem_cons.1 hq with hq | hq
      · exact hq ▸ hr
      · exact hrest q hq

/-- Without leaked leaves, releasing every process that holds a block frees the whole memory. -/
theorem BuddyInv.releaseAll (I : BuddyInv s L U t) (hno : NoLeak s t) : ReleaseAllFrees s U := by
  intro rs hrel hall
  rcases I.release_run hno hrel with ⟨s', t', hrun, I', hno', hmap⟩
  -- A leaf that is still allocated would belong to a released process.
  have hnone : allocated s' t' = [] := by
    by_contra hne
    rcases List.exists_mem_of_ne_nil _ hne with ⟨b, hb⟩
    rcases List.mem_map.1 hb with ⟨p, hp, _⟩
    have hgranted : Granted s' t' p := by simpa [Granted] using List.mem_filter.1 hp
    rcases hno' p hgranted with ⟨pid, hpid, hown⟩
    have hsome : s'.blockMap pid ≠ none := by simp [hown]
    rcases hmap pid hsome with ⟨hsome0, hnot⟩
    rcases hall pid hpid hsome0 with ⟨r, hr, hrpid⟩
    exact hnot r hr hrpid
  rcases I'.eq_root_of_none hnone with ⟨_, hlist, hrange⟩
  exact ⟨s', hrun, hlist, hrange⟩

/-- A run leaves every allocated leaf in the map, so that releasing all processes frees the memory,
exactly when no request of the run grants a second block to a process that still holds one. -/
theorem noLeak_iff (L U : Nat) (hLU : L ≤ U) (rs : List Request) (hv : ∀ r ∈ rs, r.Valid) :
    (∃ s t, (init (2 ^ L) (2 ^ U)).processRequests rs = some s ∧ s.tree = some t ∧
      NoLeak s t ∧ ReleaseAllFrees s U) ↔ CarefulRun (init (2 ^ L) (2 ^ U)) rs := by
  have I := init_inv hLU
  have hno : NoLeak (init (2 ^ L) (2 ^ U)) (.leaf 0) := by
    intro p hp
    rcases hp with ⟨hleaf, hfree⟩
    have hp0 : p = 0 := by simpa using hleaf
    simp [hp0, init] at hfree
  constructor
  · rintro ⟨s, t, hrun, htree, hnoleak, _⟩
    by_contra hc
    rcases I.careless_run hv hc with ⟨s', t', p, hrun', I', hp⟩
    have hs : s = s' := Option.some.inj (hrun.symm.trans hrun')
    subst hs
    have ht : t = t' := Option.some.inj (htree.symm.trans I'.tree_eq)
    subst ht
    rcases hnoleak p hp.1 with ⟨pid, hpid, hown⟩
    exact hp.2 pid hpid hown
  · intro hc
    rcases I.careful_run hno hv hc with ⟨s, t, hrun, I', hno'⟩
    exact ⟨s, t, hrun, I'.tree_eq, hno', I'.releaseAll hno'⟩

/-- Two processes allocate and one of them releases its block and allocates again. -/
theorem noLeak_iff_reuse :
    (∃ s t, (init (2 ^ 0) (2 ^ 3)).processRequests
        [⟨1, 2, false, fun _ _ => false⟩, ⟨1, 0, true, fun _ _ => false⟩,
          ⟨1, 1, false, fun _ _ => false⟩] = some s ∧ s.tree = some t ∧
      NoLeak s t ∧ ReleaseAllFrees s 3) ↔ CarefulRun (init (2 ^ 0) (2 ^ 3))
        [⟨1, 2, false, fun _ _ => false⟩, ⟨1, 0, true, fun _ _ => false⟩,
          ⟨1, 1, false, fun _ _ => false⟩] := by
  refine noLeak_iff 0 3 (by decide) _ ?_
  intro r hr
  simp only [List.mem_cons, List.not_mem_nil, or_false] at hr
  rcases hr with rfl | rfl | rfl <;> simp [Request.Valid]

/-- One process that allocates twice in a memory of four bytes. -/
def doubleAllocation : List Request :=
  [⟨1, 1, false, fun _ _ => false⟩, ⟨1, 1, false, fun _ _ => false⟩]

/-- The first of the two blocks is allocated and belongs to no process; after the release of
process `1`, the only one that holds anything, the free list is not the root block. -/
theorem doubleAllocation_leaks :
    ¬ ∀ (L U : Nat) (rs : List Request), L ≤ U → (∀ r ∈ rs, r.Valid) →
      ∃ s t, (init (2 ^ L) (2 ^ U)).processRequests rs = some s ∧ s.tree = some t ∧
        NoLeak s t ∧ ReleaseAllFrees s U := by
  intro hall
  have hv : ∀ r ∈ doubleAllocation, r.Valid := by
    intro r hr
    simp only [doubleAllocation, List.mem_cons, List.not_mem_nil, or_false] at hr
    rcases hr with rfl | rfl <;> simp [Request.Valid]
  rcases hall 0 2 doubleAllocation (by decide) hv with ⟨s, t, hrun, htree, hno, _⟩
  rcases (init_inv (L := 0) (U := 2) (by decide)).run hv with ⟨s', t', hrun', I⟩
  have hs : s' = s := Option.some.inj (hrun'.symm.trans hrun)
  subst hs
  -- What the run leaves behind, read off by evaluation.
  have hmap : ((init (2 ^ 0) (2 ^ 2)).processRequests doubleAllocation).map
      (fun s => (s.tree, s.blockMap 1, (s.heap 1).free, (s.heap 1).pId)) =
        some (some (.node 0 (.leaf 1) (.leaf 2)), some 2, false, 1) := by decide
  rw [hrun] at hmap
  simp only [Option.map_some, Option.some.injEq, Prod.mk.injEq] at hmap
  rcases hmap with ⟨htree', hone, hfree, hpId⟩
  have ht : t = .node 0 (.leaf 1) (.leaf 2) := Option.some.inj (htree.symm.trans htree')
  have hgranted : Granted s' t 1 := ⟨by simp [ht], hfree⟩
  rcases hno 1 hgranted with ⟨pid, hpid, hown⟩
  have hpid1 : pid = 1 := (I.owned pid 1 hpid hown).2.2.1.symm.trans hpId
  rw [hpid1, hone] at hown
  simp at hown

end Buddy
end OsLab
