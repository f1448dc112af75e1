import OsLab.Buddy.Reach
import OsLab.Buddy.Runs

/-!
# Buddy allocator — when a request returns

`main` builds the allocator with any `U` and `L`, and a request may ask for any number of bytes.  For
`L < 0` the smallest block is 0 bytes long, and the split loop of `findFreeBlock` does not end for a
negative number: halves of 0 bytes are large enough, again and again.  `Serving.request` says that this
is the only request of a process that does not return.

* For `0 ≤ L ≤ U` the states are those of `BuddyInv`.
* For `L < 0 ≤ U` they are those for `L = 0`, with the smallest block of 0 bytes (`withMin`).
* For all other exponents the root is never split (`Sole`).
-/

namespace OsLab
namespace Buddy

open Lib BuddySystem

variable {s s' : BuddySystem} {L U : Nat} {t : Tree} {x : Ptr} {pid size : Int}

/-! ## Another smallest block -/

/-- The allocator with another `MIN_BLOCK_SIZE`. -/
def BuddySystem.withMin (s : BuddySystem) (m : Int) : BuddySystem :=
  { s with minBlockSize := m }

/-- The same for the variables of a loop. -/
def minVars {α : Type} (m : Int) (v : BuddySystem × α) : BuddySystem × α :=
  (v.1.withMin m, v.2)

/-- A turn of the split loop, if the test does not depend on the smallest block. -/
theorem splitStep_withMin {m : Int}
    (htest : ((s.heap x).size.tdiv 2 > size ∧ (s.heap x).size.tdiv 2 ≥ m) ↔
      (s.heap x).size.tdiv 2 > size ∧ (s.heap x).size.tdiv 2 ≥ s.minBlockSize) :
    splitStep size (minVars m (s, x)) =
      (splitStep size (s, x)).map (Sum.map (minVars m) (minVars m)) := by
  have hmin : (s.withMin m).minBlockSize = m := rfl
  have hheap : (s.withMin m).heap = s.heap := rfl
  simp only [splitStep, minVars, hmin, hheap, htest]
  split
  · rfl
  · rfl

theorem markStep_withMin (m : Int) (v : BuddySystem × Ptr) :
    markStep (minVars m v) = (markStep v).map (Sum.map (minVars m) fun s => s.withMin m) := by
  rcases v with ⟨s, y⟩
  simp only [markStep, minVars, withMin]
  cases (s.heap y).parent with
  | none => rfl
  | some p => rfl

theorem cutParent_withMin (m : Int) (s : BuddySystem) (z : Ptr) :
    cutParent (s.withMin m) z = (cutParent s z).map (minVars m) := by
  have hheap : (s.withMin m).heap = s.heap := rfl
  simp only [cutParent, hheap]
  cases (s.heap z).parent with
  | none => rfl
  | some p =>
      dsimp only
      split
      · rfl
      · split
        · rfl
        · rfl

theorem mergeInto_withMin (m : Int) (s : BuddySystem) (block buddy : Ptr) :
    (s.withMin m).mergeInto block buddy = (s.mergeInto block buddy).map (minVars m) := by
  have hheap : ∀ s : BuddySystem, (s.withMin m).heap = s.heap := fun _ => rfl
  have hmodify : ∀ (s : BuddySystem) p f, (s.withMin m).modify p f = (s.modify p f).withMin m :=
    fun _ _ _ => rfl
  simp only [BuddySystem.mergeInto, hmodify, hheap]
  generalize ((s.modify block fun b => { b with size := b.size * 2 }).modify block fun b =>
    { b with right :=
      ((s.modify block fun b => { b with size := b.size * 2 }).heap buddy).right }) = s₁
  cases (s₁.heap block).right with
  | none => exact cutParent_withMin m (s₁.modify block fun b => { b with free := true }) block
  | some r =>
      exact cutParent_withMin m
        ((s₁.modify r fun b => { b with parent := some block }).modify block fun b =>
          { b with free := true }) block

theorem mergeStep_withMin (m : Int) (below : Ptr → Ptr → Bool) (v : BuddySystem × Option Ptr) :
    mergeStep below (minVars m v) =
      (mergeStep below v).map (Sum.map (minVars m) fun s => s.withMin m) := by
  rcases v with ⟨s, block⟩
  cases block with
  | none => rfl
  | some block =>
      have hheap : (s.withMin m).heap = s.heap := rfl
      have hbuddy : (s.withMin m).getBuddy block = s.getBuddy block := rfl
      simp only [mergeStep, minVars, hbuddy, hheap]
      cases s.getBuddy block with
      | none => rfl
      | some buddy =>
          dsimp only
          split
          · have hmerge : (s.withMin m).merge below block buddy =
                (s.merge below block buddy).map (minVars m) := by
              simp only [BuddySystem.merge]
              split
              · exact mergeInto_withMin m (s.removeFree buddy) buddy block
              · exact mergeInto_withMin m (s.removeFree buddy) block buddy
            rw [hmerge, Option.map_map, Option.map_map]
            rfl
          · rfl

/-! ## Requests with another smallest block -/

theorem releaseProcess_withMin (m : Int) (s : BuddySystem) (below : Ptr → Ptr → Bool) (pid : Int) :
    (s.withMin m).releaseProcess below pid =
      (s.releaseProcess below pid).map fun s => s.withMin m := by
  have hmap : (s.withMin m).blockMap = s.blockMap := rfl
  simp only [releaseProcess, hmap]
  cases s.blockMap pid with
  | none => rfl
  | some block =>
      exact loop_map (minVars m) (fun s : BuddySystem => s.withMin m) (fun _ => True)
        (fun _ _ _ _ => trivial) (fun v _ => mergeStep_withMin m below v) _
        (holdState s block pid, some block) trivial

/-- For a number that is not negative, halves of 0 bytes are too small anyway. -/
theorem splitLoop_withMin (hmin : s.minBlockSize = 1) (hx : x < s.next) (hsize : 0 ≤ size)
    (fuel : Nat) :
    loop (splitStep size) fuel (minVars 0 (s, x)) =
      (loop (splitStep size) fuel (s, x)).map (minVars 0) := by
  refine loop_map (minVars 0) (minVars 0) (fun v => v.1.minBlockSize = 1 ∧ v.2 < v.1.next) ?_ ?_ fuel
    (s, x) ⟨hmin, hx⟩
  · rintro ⟨s₁, y⟩ v ⟨hmin₁, hy⟩ hstep
    by_cases hcond : (s₁.heap y).size.tdiv 2 > size ∧ (s₁.heap y).size.tdiv 2 ≥ s₁.minBlockSize
    · rw [splitStep_again hy hcond] at hstep
      rw [← Sum.inl.inj (Option.some.inj hstep)]
      exact ⟨hmin₁, Nat.lt_succ_of_lt (Nat.lt_succ_self _)⟩
    · simp [splitStep, hcond] at hstep
  · rintro ⟨s₁, y⟩ ⟨hmin₁, _⟩
    refine splitStep_withMin ?_
    change s₁.minBlockSize = 1 at hmin₁
    rw [hmin₁]
    omega

/-- The two loops of a request that finds a block. -/
theorem allocateProcess_of_fit {rest : List Ptr}
    (hfit : takeFit s.heap size s.freeList = some (x, rest)) :
    s.allocateProcess pid size =
      (loop (splitStep size) ((s.heap x).size.toNat + 1) ({ s with freeList := rest }, x)).bind
        fun v => loop markStep (v.1.next + 1) (grantState v.1 v.2 pid size, v.2) := by
  simp only [allocateProcess, findFreeBlock, hfit]
  cases loop (splitStep size) ((s.heap x).size.toNat + 1) ({ s with freeList := rest }, x) with
  | none => rfl
  | some v => simp [BuddySystem.modify, grantState]

theorem allocateProcess_withMin (hmin : s.minBlockSize = 1) (hlisted : ∀ p ∈ s.freeList, p < s.next)
    (pid : Int) (hsize : 0 ≤ size) :
    (s.withMin 0).allocateProcess pid size =
      (s.allocateProcess pid size).map fun s => s.withMin 0 := by
  have hsame : takeFit (s.withMin 0).heap size (s.withMin 0).freeList =
      takeFit s.heap size s.freeList := rfl
  cases hfit : takeFit s.heap size s.freeList with
  | none =>
      rw [allocateProcess_of_no_fit hfit, allocateProcess_of_no_fit (hsame.trans hfit)]
      rfl
  | some out =>
      rcases out with ⟨x, rest⟩
      rcases takeFit_some hfit with ⟨pre, post, hlist, _⟩
      have hx : x < s.next := hlisted x (by simp [hlist])
      have hsplit := splitLoop_withMin (s := { s with freeList := rest }) hmin hx hsize
        ((s.heap x).size.toNat + 1)
      rw [allocateProcess_of_fit hfit, allocateProcess_of_fit (hsame.trans hfit)]
      refine (congrArg (fun o => Option.bind o _) hsplit).trans ?_
      cases loop (splitStep size) ((s.heap x).size.toNat + 1) ({ s with freeList := rest }, x) with
      | none => rfl
      | some v =>
          exact loop_map (minVars 0) (fun s : BuddySystem => s.withMin 0) (fun _ => True)
            (fun _ _ _ _ => trivial) (fun v _ => markStep_withMin 0 v) (v.1.next + 1)
            (grantState v.1 v.2 pid size, v.2) trivial

/-! ## The loop that does not end -/

/-- The smallest block is 0 bytes long, a negative number is asked for, and a block is free. -/
def Endless (s : BuddySystem) (r : Request) : Prop :=
  r.terminate = false ∧ r.size < 0 ∧ s.minBlockSize = 0 ∧ s.freeList ≠ []

theorem not_endless_of_terminate {r : Request} (hterm : r.terminate = true) : ¬ Endless s r := by
  rintro ⟨hnot, _⟩
  rw [hterm] at hnot
  cases hnot

theorem allocateProcess_endless (hsize : size < 0) (hmin : s.minBlockSize = 0)
    (hne : s.freeList ≠ []) (hlisted : ∀ p ∈ s.freeList, p < s.next ∧ 0 ≤ (s.heap p).size) :
    s.allocateProcess pid size = none := by
  cases hfit : takeFit s.heap size s.freeList with
  | none =>
      -- Every block is large enough.
      rcases List.exists_mem_of_ne_nil _ hne with ⟨p, hp⟩
      have hlarge := takeFit_none hfit p hp
      have hpos := (hlisted p hp).2
      omega
  | some out =>
      rcases out with ⟨x, rest⟩
      rcases takeFit_some hfit with ⟨pre, post, hlist, _⟩
      rcases hlisted x (by simp [hlist]) with ⟨hx, hpos⟩
      have hloop : loop (splitStep size) ((s.heap x).size.toNat + 1)
          ({ s with freeList := rest }, x) = none := by
        refine loop_endless
          (fun v => v.1.minBlockSize = 0 ∧ v.2 < v.1.next ∧ 0 ≤ (v.1.heap v.2).size) ?_ _ _
          ⟨hmin, hx, hpos⟩
        rintro ⟨s₁, y⟩ ⟨hmin₁, hy, hpos₁⟩
        change s₁.minBlockSize = 0 at hmin₁
        have hhalf : 0 ≤ (s₁.heap y).size.tdiv 2 := Int.tdiv_nonneg hpos₁ (by decide)
        refine ⟨_, splitStep_again hy ⟨?_, ?_⟩, hmin₁, Nat.lt_succ_of_lt (Nat.lt_succ_self _), ?_⟩
        · omega
        · rw [hmin₁]
          exact hhalf
        · have hleft : (splitState s₁ y).heap s₁.next = _ := splitHeap_left
          rw [hleft]
          exact hhalf
      rw [allocateProcess_of_fit hfit, hloop]
      rfl

/-! ## A root that is never split -/

structure Sole (s : BuddySystem) (upper : Int) : Prop where
  nonempty : 0 < s.next
  size : (s.heap 0).size = upper
  parent : (s.heap 0).parent = none
  listed : ∀ p ∈ s.freeList, p = 0
  mapped : ∀ pid p, s.blockMap pid = some p → p = 0

theorem Sole.init (lower upper : Int) : Sole (init lower upper) upper := by
  refine ⟨Nat.one_pos, rfl, rfl, fun p hp => by simpa [BuddySystem.init] using hp, ?_⟩
  intro pid p hp
  by_cases hpid : pid = 0
  · simpa [BuddySystem.init, hpid, eq_comm] using hp
  · simp [BuddySystem.init, hpid] at hp

theorem Sole.release {upper : Int} (h : Sole s upper) (below : Ptr → Ptr → Bool) (pid : Int) :
    ∃ s', s.releaseProcess below pid = some s' ∧ s'.minBlockSize = s.minBlockSize ∧ Sole s' upper := by
  rw [releaseProcess]
  cases hmap : s.blockMap pid with
  | none => exact ⟨s, rfl, rfl, h⟩
  | some block =>
      have hblock := h.mapped pid block hmap
      subst hblock
      have hpar : ((holdState s 0 pid).heap 0).parent = none := by
        simpa [holdState] using h.parent
      have hexit : mergeStep below (holdState s 0 pid, some 0) =
          some (.inr (giveState (holdState s 0 pid) 0)) := by
        simp [mergeStep, getBuddy, hpar, giveState]
      refine ⟨_, loop_exit _ hexit, rfl, h.nonempty, ?_, ?_, ?_, ?_⟩
      · rw [giveState_self]
        simpa [holdState] using h.size
      · rw [giveState_self]
        exact hpar
      · intro p hp
        rcases List.mem_cons.1 ((insertFree_perm _ 0).mem_iff.1 hp) with rfl | hp
        · rfl
        · exact h.listed p hp
      · intro q p hp
        by_cases hq : q = pid
        · subst hq
          simp [giveState, insertFree, BuddySystem.modify, holdState] at hp
        · exact h.mapped q p (by
            simpa [giveState, insertFree, BuddySystem.modify, holdState, hq] using hp)

theorem Sole.allocate {upper : Int} (h : Sole s upper) (pid : Int)
    (hnever : ¬ (upper.tdiv 2 > size ∧ upper.tdiv 2 ≥ s.minBlockSize)) :
    ∃ s', s.allocateProcess pid size = some s' ∧ s'.minBlockSize = s.minBlockSize ∧ Sole s' upper := by
  cases hfit : takeFit s.heap size s.freeList with
  | none => exact ⟨s, allocateProcess_of_no_fit hfit, rfl, h⟩
  | some out =>
      rcases out with ⟨x, rest⟩
      rcases takeFit_some hfit with ⟨pre, post, hlist, rfl, _, _⟩
      have hx : x = 0 := h.listed x (by simp [hlist])
      subst hx
      have hsplit : splitStep size ({ s with freeList := pre ++ post }, 0) =
          some (.inr ({ s with freeList := pre ++ post }, 0)) := by
        simp [splitStep, h.size, hnever]
      rw [allocateProcess_of_fit hfit, loop_exit _ hsplit]
      generalize hgrant : grantState { s with freeList := pre ++ post } 0 pid size = s₁
      have hpar : (s₁.heap 0).parent = none := by
        rw [← hgrant, grantState_self]
        exact h.parent
      have hmark : markStep (s₁, 0) = some (.inr s₁) := by simp [markStep, hpar]
      refine ⟨s₁, ?_, ?_, ?_, ?_, hpar, ?_, ?_⟩
      · simp only [Option.bind_some, hgrant]
        exact loop_exit _ hmark
      · rw [← hgrant]
        rfl
      · rw [← hgrant]
        exact h.nonempty
      · rw [← hgrant, grantState_self]
        exact h.size
      · intro p hp
        rw [← hgrant] at hp
        refine h.listed p ?_
        rw [hlist]
        rcases List.mem_append.1 hp with hp | hp
        · exact List.mem_append_left _ hp
        · exact List.mem_append_right _ (List.mem_cons_of_mem _ hp)
      · intro q p hp
        rw [← hgrant] at hp
        by_cases hq : q = pid
        · subst hq
          simpa [grantState, eq_comm] using hp
        · exact h.mapped q p (by simpa [grantState, hq] using hp)

/-! ## Every request -/

/-- The states of the allocator for any two exponents. -/
inductive Serving : BuddySystem → Prop
  | tree {s : BuddySystem} {L U : Nat} {t : Tree} (h : BuddyInv s L U t) : Serving s
  | unbounded {s : BuddySystem} {U : Nat} {t : Tree} (h : BuddyInv s 0 U t) : Serving (s.withMin 0)
  | sole {s : BuddySystem} {upper : Int} (h : Sole s upper) (hupper : 0 ≤ upper)
      (hnever : upper.tdiv 2 < s.minBlockSize ∨ upper = 0 ∧ s.minBlockSize = 0) : Serving s

theorem BuddyInv.listed (I : BuddyInv s L U t) : ∀ p ∈ s.freeList, p < s.next ∧ 0 ≤ (s.heap p).size := by
  intro p hp
  have hleaf := (List.mem_filter.1 (I.freePerm.mem_iff.1 hp)).1
  exact ⟨I.shape.fresh p (Tree.mem_ptrs_of_mem_leaves hleaf), (I.fits p).2.2.1⟩

theorem BuddyInv.returns (I : BuddyInv s L U t) {r : Request} (hpid : r.pid ≠ 0) :
    ∃ s' t', s.processRequest r = some s' ∧ BuddyInv s' L U t' := by
  -- A release has no size, and an allocation may have any.
  cases hterm : r.terminate with
  | true => exact I.request ⟨hpid, by simp [hterm]⟩
  | false =>
      rcases I.allocate r.pid r.size with ⟨hsame, _⟩ | ⟨s', t', _, hgo, hinv, _⟩
      · exact ⟨s, t, by simp [processRequest, hterm, hsame], I⟩
      · exact ⟨s', t', by simp [processRequest, hterm, hgo], hinv⟩

/-- A request returns and leads to such a state again, or it is endless. -/
def Answers (s : BuddySystem) (r : Request) : Prop :=
  (s.processRequest r = none ∧ Endless s r) ∨
    (∃ s', s.processRequest r = some s' ∧ s'.minBlockSize = s.minBlockSize ∧ Serving s') ∧ ¬ Endless s r

theorem answers_of_bounded {r : Request} (hmin : s.minBlockSize ≠ 0)
    (h : ∃ s', s.processRequest r = some s' ∧ s'.minBlockSize = s.minBlockSize ∧ Serving s') :
    Answers s r :=
  Or.inr ⟨h, fun hendless => hmin hendless.2.2.1⟩

/-- A negative number and a smallest block of 0 bytes. -/
theorem answers_of_negative {r : Request} (h : Serving s) (hterm : r.terminate = false)
    (hsize : r.size < 0) (hmin : s.minBlockSize = 0)
    (hlisted : ∀ p ∈ s.freeList, p < s.next ∧ 0 ≤ (s.heap p).size) : Answers s r := by
  have hrequest : s.processRequest r = s.allocateProcess r.pid r.size := by
    simp [processRequest, hterm]
  by_cases hnil : s.freeList = []
  · have hfit : takeFit s.heap r.size s.freeList = none := by
      rw [hnil]
      rfl
    refine Or.inr ⟨⟨s, ?_, rfl, h⟩, fun hendless => hendless.2.2.2 hnil⟩
    rw [hrequest, allocateProcess_of_no_fit hfit]
  · refine Or.inl ⟨?_, hterm, hsize, hmin, hnil⟩
    rw [hrequest]
    exact allocateProcess_endless hsize hmin hnil hlisted

theorem BuddyInv.unbounded_request (I : BuddyInv s 0 U t) {r : Request} (hpid : r.pid ≠ 0) :
    Answers (s.withMin 0) r := by
  have hmin : s.minBlockSize = 1 := I.minBlock
  rcases I.returns hpid with ⟨s', t', hgo, I'⟩
  cases hterm : r.terminate with
  | true =>
      have hrelease : s.releaseProcess r.below r.pid = some s' := by
        simpa [processRequest, hterm] using hgo
      refine Or.inr ⟨⟨s'.withMin 0, ?_, rfl, .unbounded I'⟩, not_endless_of_terminate hterm⟩
      simp [processRequest, hterm, releaseProcess_withMin, hrelease]
  | false =>
      by_cases hsize : r.size < 0
      · exact answers_of_negative (.unbounded I) hterm hsize rfl I.listed
      · have hallocate : s.allocateProcess r.pid r.size = some s' := by
          simpa [processRequest, hterm] using hgo
        refine Or.inr ⟨⟨s'.withMin 0, ?_, rfl, .unbounded I'⟩, fun h => hsize h.2.1⟩
        have hsame := allocateProcess_withMin hmin (fun p hp => (I.listed p hp).1) r.pid
          (Int.not_lt.1 hsize)
        simp [processRequest, hterm, hsame, hallocate]

theorem Sole.request {upper : Int} (h : Sole s upper) (hupper : 0 ≤ upper)
    (hnever : upper.tdiv 2 < s.minBlockSize ∨ upper = 0 ∧ s.minBlockSize = 0) (r : Request) :
    Answers s r := by
  have hagain : ∀ s', s'.minBlockSize = s.minBlockSize → Sole s' upper → Serving s' := by
    intro s' hmin hsole
    refine .sole hsole hupper ?_
    rw [hmin]
    exact hnever
  cases hterm : r.terminate with
  | true =>
      rcases h.release r.below r.pid with ⟨s', hgo, hmin, hsole⟩
      refine Or.inr ⟨⟨s', ?_, hmin, hagain s' hmin hsole⟩, not_endless_of_terminate hterm⟩
      simpa [processRequest, hterm] using hgo
  | false =>
      by_cases hnegative : r.size < 0 ∧ s.minBlockSize = 0
      · refine answers_of_negative (.sole h hupper hnever) hterm hnegative.1 hnegative.2 ?_
        intro p hp
        rw [h.listed p hp, h.size]
        exact ⟨h.nonempty, hupper⟩
      · have hstays : ¬ (upper.tdiv 2 > r.size ∧ upper.tdiv 2 ≥ s.minBlockSize) := by
          rcases hnever with hlt | ⟨rfl, hzero⟩
          · omega
          · have hhalf : (0 : Int).tdiv 2 = 0 := by decide
            omega
        rcases h.allocate r.pid hstays with ⟨s', hgo, hmin, hsole⟩
        refine Or.inr ⟨⟨s', ?_, hmin, hagain s' hmin hsole⟩, fun h => hnegative ⟨h.2.1, h.2.2.1⟩⟩
        simpa [processRequest, hterm] using hgo

/-- **Requests return.**  A request of a process returns, in every state of the allocator for any two
exponents, unless it asks for a negative number of bytes while a block is free and the smallest block
is 0 bytes long. -/
theorem Serving.request (h : Serving s) {r : Request} (hpid : r.pid ≠ 0) : Answers s r := by
  cases h with
  | @tree _ L U t I =>
      rcases I.returns hpid with ⟨s', t', hgo, I'⟩
      have hmin : s.minBlockSize ≠ 0 := by
        rw [I.minBlock]
        positivity
      exact answers_of_bounded hmin ⟨s', hgo, I'.minBlock.trans I.minBlock.symm, .tree I'⟩
  | unbounded I => exact I.unbounded_request hpid
  | sole h hupper hnever => exact h.request hupper hnever r

end Buddy
end OsLab
