import OsLab.Buddy.Release

/-!
# Buddy allocator — runs with arbitrary process numbers

`main` takes the process number of a request from any character, so the number `0`, the
constructor's own key of `blockMap`, is not excluded.  After a release of `0` the tree and the free
list need not agree any more, and `BuddyInv` is lost.  `Reach` is the set of states of all these
runs, with a ledger of the processes whose last successful request was an allocation.  Its loops take
as many turns as they need.

What survives in every such state is `Linked`: pointers lead to blocks that exist, sizes are powers
of two not below `MIN_BLOCK_SIZE`, and the root has no parent.  The free list may be out of order, and
then `lower_bound` promises no position; nothing below depends on where an insertion puts a block.
-/

namespace OsLab
namespace Buddy

open Lib BuddySystem

variable {s s' : BuddySystem} {L U : Nat} {x y : Ptr} {pid size : Int}

/-! ## Steps -/

/-- `allocateProcess` grants the block `y`. -/
def Grants (s : BuddySystem) (pid size : Int) (s' : BuddySystem) (y : Ptr) : Prop :=
  ∃ x rest s₁, takeFit s.heap size s.freeList = some (x, rest) ∧
    LoopsTo (splitStep size) ({ s with freeList := rest }, x) (s₁, y) ∧
    LoopsTo markStep (grantState s₁ y pid size, y) s'

/-- `releaseProcess` ends in `s'`. -/
def GivesBack (s : BuddySystem) (below : Ptr → Ptr → Bool) (pid : Int) (s' : BuddySystem) : Prop :=
  match s.blockMap pid with
  | none => s' = s
  | some block => LoopsTo (mergeStep below) (holdState s block pid, some block) s'

/-- One request leads from `s` to `s'`. -/
def Step (s : BuddySystem) (r : Request) (s' : BuddySystem) : Prop :=
  if r.terminate then
    GivesBack s r.below r.pid s'
  else
    (∃ y, Grants s r.pid r.size s' y) ∨ (takeFit s.heap r.size s.freeList = none ∧ s' = s)

/-- A sequence of requests leads from `s` to `s'`. -/
def Follows (s : BuddySystem) : List Request → BuddySystem → Prop
  | [], s' => s' = s
  | r :: rs, s' => ∃ s₁, Step s r s₁ ∧ Follows s₁ rs s'

/-- The states after requests with any process numbers.  The ledger `holds` marks the processes that
were granted a block since their last release. -/
inductive Reach (L U : Nat) : List Request → BuddySystem → (Int → Bool) → Prop
  | start : Reach L U [] (init (2 ^ L) (2 ^ U)) fun _ => false
  | granted {rs : List Request} {s s' : BuddySystem} {holds : Int → Bool} {r : Request} {y : Ptr} :
      Reach L U rs s holds → r.terminate = false → Grants s r.pid r.size s' y →
        Reach L U (rs ++ [r]) s' (Function.update holds r.pid true)
  | refused {rs : List Request} {s : BuddySystem} {holds : Int → Bool} {r : Request} :
      Reach L U rs s holds → r.terminate = false → takeFit s.heap r.size s.freeList = none →
        Reach L U (rs ++ [r]) s holds
  | released {rs : List Request} {s s' : BuddySystem} {holds : Int → Bool} {r : Request} :
      Reach L U rs s holds → r.terminate = true → GivesBack s r.below r.pid s' →
        Reach L U (rs ++ [r]) s' (Function.update holds r.pid false)

/-! ## The program takes these steps -/

theorem allocateProcess_grants (hgo : s.allocateProcess pid size = some s') {rest : List Ptr}
    (hfit : takeFit s.heap size s.freeList = some (x, rest)) : ∃ y, Grants s pid size s' y := by
  simp only [allocateProcess, findFreeBlock, hfit] at hgo
  cases hloop : loop (splitStep size) ((s.heap x).size.toNat + 1) ({ s with freeList := rest }, x) with
  | none => simp [hloop] at hgo
  | some out =>
      rcases out with ⟨s₁, y⟩
      simp only [hloop, Option.map_some] at hgo
      refine ⟨y, x, rest, s₁, hfit, ⟨_, hloop⟩, s₁.next + 1, ?_⟩
      simpa [BuddySystem.modify, grantState] using hgo

theorem releaseProcess_givesBack {below : Ptr → Ptr → Bool}
    (hgo : s.releaseProcess below pid = some s') : GivesBack s below pid s' := by
  rw [releaseProcess] at hgo
  rw [GivesBack]
  cases hmap : s.blockMap pid with
  | none =>
      rw [hmap] at hgo
      exact (Option.some.inj hgo).symm
  | some block =>
      rw [hmap] at hgo
      exact ⟨_, hgo⟩

/-- A request that the program completes is a step. -/
theorem processRequest_step {r : Request} (hgo : s.processRequest r = some s') : Step s r s' := by
  rw [processRequest] at hgo
  rw [Step]
  split_ifs at hgo ⊢ with hterm
  · exact releaseProcess_givesBack hgo
  · cases hfit : takeFit s.heap r.size s.freeList with
    | none =>
        rw [allocateProcess_of_no_fit hfit] at hgo
        exact Or.inr ⟨rfl, (Option.some.inj hgo).symm⟩
    | some out => exact Or.inl (allocateProcess_grants hgo hfit)

/-- Every step extends the runs. -/
theorem Reach.step {rs : List Request} {holds : Int → Bool} {r : Request}
    (hreach : Reach L U rs s holds) (hstep : Step s r s') :
    ∃ holds', Reach L U (rs ++ [r]) s' holds' := by
  rw [Step] at hstep
  split_ifs at hstep with hterm
  · exact ⟨_, hreach.released hterm hstep⟩
  · have hterm' : r.terminate = false := by simpa using hterm
    rcases hstep with ⟨y, hgrants⟩ | ⟨hfit, rfl⟩
    · exact ⟨_, hreach.granted hterm' hgrants⟩
    · exact ⟨_, hreach.refused hterm' hfit⟩

theorem Reach.of_processRequests :
    ∀ {rs' rs : List Request} {s s' : BuddySystem} {holds : Int → Bool}, Reach L U rs s holds →
      s.processRequests rs' = some s' → ∃ holds', Reach L U (rs ++ rs') s' holds'
  | [], rs, s, s', holds, hreach, hrun => by
      have hs : s = s' := by simpa [processRequests] using hrun
      subst hs
      exact ⟨holds, by simpa using hreach⟩
  | r :: rs', rs, s, s', holds, hreach, hrun => by
      cases hgo : s.processRequest r with
      | none => simp [processRequests, hgo] at hrun
      | some s₁ =>
          have hrun' : s₁.processRequests rs' = some s' := by simpa [processRequests, hgo] using hrun
          rcases hreach.step (processRequest_step hgo) with ⟨holds₁, hreach₁⟩
          rcases hreach₁.of_processRequests hrun' with ⟨holds', hreach'⟩
          exact ⟨holds', by simpa using hreach'⟩

/-! ## What survives -/

/-- The end of `mergeInto`: the parent of `z` loses its children. -/
def cutParent (s : BuddySystem) (z : Ptr) : Option (BuddySystem × Option Ptr) :=
  match (s.heap z).parent with
  | none => none
  | some p =>
      if (s.heap p).left = some z then
        let s := s.modify p fun b => { b with right := none }
        let s := s.modify p fun b => { b with left := none }
        some (s, (s.heap z).parent)
      else if (s.heap p).right = some z then
        let s := s.modify p fun b => { b with left := none }
        let s := s.modify p fun b => { b with right := none }
        some (s, (s.heap z).parent)
      else
        some (s, (s.heap z).parent)

/-- The links of a block lead to blocks below `n`, never to the root as a right child, and its size
is a power of two of at least `2 ^ L`. -/
structure GoodBlock (n : Ptr) (L : Nat) (b : BuddyBlock) : Prop where
  parent_lt : ∀ q, b.parent = some q → q < n
  left_lt : ∀ q, b.left = some q → q < n
  right_lt : ∀ q, b.right = some q → q < n
  right_ne : b.right ≠ some 0
  sized : ∃ j, L ≤ j ∧ b.size = 2 ^ j

structure Linked (s : BuddySystem) (L : Nat) : Prop where
  minBlock : s.minBlockSize = 2 ^ L
  nonempty : 0 < s.next
  good : ∀ p, p < s.next → GoodBlock s.next L (s.heap p)
  top : (s.heap 0).parent = none
  listed : ∀ p ∈ s.freeList, p < s.next
  mapped : ∀ pid p, s.blockMap pid = some p → p < s.next

namespace Linked

theorem init (hLU : L ≤ U) : Linked (init (2 ^ L) (2 ^ U)) L := by
  refine ⟨rfl, Nat.one_pos, ?_, rfl, ?_, ?_⟩
  · intro p hp
    have hp0 : p = 0 := Nat.lt_one_iff.1 hp
    subst hp0
    exact ⟨by simp [BuddySystem.init], by simp [BuddySystem.init], by simp [BuddySystem.init],
      by simp [BuddySystem.init], U, hLU, rfl⟩
  · simp [BuddySystem.init]
  · intro pid p hp
    by_cases hpid : pid = 0
    · have hp0 : p = 0 := by simpa [BuddySystem.init, hpid, eq_comm] using hp
      simp [hp0, BuddySystem.init]
    · simp [BuddySystem.init, hpid] at hp

/-- An assignment to fields of one block. -/
theorem modify {f : BuddyBlock → BuddyBlock} (I : Linked s L) (p : Ptr)
    (hgood : p < s.next → GoodBlock s.next L (f (s.heap p)))
    (htop : p = 0 → (f (s.heap 0)).parent = none) : Linked (s.modify p f) L := by
  refine ⟨I.minBlock, I.nonempty, ?_, ?_, I.listed, I.mapped⟩
  · intro q hq
    by_cases hqp : q = p
    · subst hqp
      simpa [BuddySystem.modify] using hgood hq
    · simpa [BuddySystem.modify, hqp] using I.good q hq
  · by_cases hp : p = 0
    · subst hp
      simpa [BuddySystem.modify] using htop rfl
    · have h0 : (0 : Ptr) ≠ p := Ne.symm hp
      simpa [BuddySystem.modify, h0] using I.top

/-- An assignment that leaves links and size alone. -/
theorem modify_same {f : BuddyBlock → BuddyBlock} (I : Linked s L) (p : Ptr)
    (hlinks : ∀ b, SameLinks (f b) b) (hsize : ∀ b, (f b).size = b.size) :
    Linked (s.modify p f) L := by
  refine I.modify p ?_ ?_
  · intro hp
    rcases I.good p hp with ⟨hpar, hl, hr, hr0, hsz⟩
    rcases hlinks (s.heap p) with ⟨hfl, hfr, hfp⟩
    simp only [Links.left, Links.right, Links.parent] at hfl hfr hfp
    exact ⟨hfp ▸ hpar, hfl ▸ hl, hfr ▸ hr, hfr ▸ hr0, by rw [hsize]; exact hsz⟩
  · intro _
    have hfp := (hlinks (s.heap 0)).2.2
    simp only [Links.parent] at hfp
    exact hfp.trans I.top

theorem mark (I : Linked s L) (p : Ptr) (free : Bool) :
    Linked (s.modify p fun b => { b with free := free }) L :=
  I.modify_same p (fun _ => ⟨rfl, rfl, rfl⟩) fun _ => rfl

theorem insertFree (I : Linked s L) {p : Ptr} (hp : p < s.next) : Linked (s.insertFree p) L := by
  refine ⟨I.minBlock, I.nonempty, I.good, I.top, ?_, I.mapped⟩
  intro q hq
  rcases List.mem_cons.1 ((insertFree_perm s p).mem_iff.1 hq) with rfl | hq
  · exact hp
  · exact I.listed q hq

/-- Any part of the free list. -/
theorem withFree (I : Linked s L) {ps : List Ptr} (hps : ∀ p ∈ ps, p ∈ s.freeList) :
    Linked { s with freeList := ps } L :=
  ⟨I.minBlock, I.nonempty, I.good, I.top, fun p hp => I.listed p (hps p hp), I.mapped⟩

theorem withMap (I : Linked s L) {pid : Int} {o : Option Ptr} (ho : ∀ p, o = some p → p < s.next) :
    Linked { s with blockMap := Function.update s.blockMap pid o } L := by
  refine ⟨I.minBlock, I.nonempty, I.good, I.top, I.listed, ?_⟩
  intro q p hp
  by_cases hq : q = pid
  · subst hq
    exact ho p (by simpa using hp)
  · exact I.mapped q p (by simpa [hq] using hp)

/-- The blocks after a split.  Old links lead to old blocks, and those of `x` to the new ones. -/
theorem splitHeap_good (I : Linked s L) (hx : x < s.next)
    (hhalf : (s.heap x).size.tdiv 2 ≥ s.minBlockSize) {p : Ptr} (hp : p < s.next + 1 + 1) :
    GoodBlock (s.next + 1 + 1) L (splitHeap s.heap x s.next p) := by
  rcases (I.good x hx).sized with ⟨j, _, hj⟩
  have hhalf' : (2 ^ j : Int).tdiv 2 ≥ 2 ^ L := by
    rw [← hj, ← I.minBlock]
    exact hhalf
  rcases half_level hhalf' with ⟨i, _, hLi, hdiv⟩
  have hnext : s.next < s.next + 1 + 1 := Nat.lt_succ_of_lt (Nat.lt_succ_self _)
  have hx2 : x < s.next + 1 + 1 := hx.trans hnext
  have hnew : ∀ st, GoodBlock (s.next + 1 + 1) L
      ⟨0, (s.heap x).size.tdiv 2, st, true, 0, none, none, some x⟩ := fun st =>
    ⟨by simpa using hx2, by simp, by simp, by simp, i, hLi, by rw [hj, hdiv]⟩
  -- Two new blocks, the block that was split, and all others.
  by_cases hpr : p = s.next + 1
  · rw [hpr, splitHeap_right hx]
    exact hnew _
  · by_cases hpl : p = s.next
    · rw [hpl, splitHeap_left]
      exact hnew _
    · have hlt : p < s.next := by
        have hle := Nat.lt_succ_iff.1 hp
        exact Nat.lt_of_le_of_ne (Nat.lt_succ_iff.1 (Nat.lt_of_le_of_ne hle hpr)) hpl
      rcases I.good p hlt with ⟨hpar, hl, hr, hr0, hsz⟩
      by_cases hpx : p = x
      · subst hpx
        rw [splitHeap_top hx]
        refine ⟨fun q hq => (hpar q hq).trans hnext, ?_, ?_, by simp, hsz⟩
        · intro q hq
          have hqn : s.next = q := Option.some.inj hq
          exact hqn ▸ hnext
        · intro q hq
          have hqn : s.next + 1 = q := Option.some.inj hq
          exact hqn ▸ Nat.lt_succ_self _
      · rw [splitHeap_other hlt hpx]
        exact ⟨fun q hq => (hpar q hq).trans hnext, fun q hq => (hl q hq).trans hnext,
          fun q hq => (hr q hq).trans hnext, hr0, hsz⟩

/-- A turn of the split loop adds two blocks of half the size. -/
theorem split (I : Linked s L) (hx : x < s.next)
    (hhalf : (s.heap x).size.tdiv 2 ≥ s.minBlockSize) : Linked (splitState s x) L := by
  have hnext : s.next < s.next + 1 + 1 := Nat.lt_succ_of_lt (Nat.lt_succ_self _)
  have hgood : Linked { s with heap := splitHeap s.heap x s.next, next := s.next + 1 + 1 } L := by
    refine ⟨I.minBlock, Nat.succ_pos _, fun p hp => I.splitHeap_good hx hhalf hp, ?_, ?_, ?_⟩
    · by_cases hx0 : x = 0
      · subst hx0
        simp only [splitHeap_top hx]
        exact I.top
      · have h0 : (0 : Ptr) ≠ x := Ne.symm hx0
        simp only [splitHeap_other I.nonempty h0]
        exact I.top
    · intro p hp
      exact (I.listed p hp).trans hnext
    · intro pid p hp
      exact (I.mapped pid p hp).trans hnext
  exact hgood.insertFree (Nat.lt_succ_self _)

theorem grant (I : Linked s L) (hy : y < s.next) : Linked (grantState s y pid size) L := by
  have hmod : Linked (s.modify y fun b => { b with pId := pid, sizeUsed := size, free := false }) L :=
    I.modify_same y (fun _ => ⟨rfl, rfl, rfl⟩) fun _ => rfl
  exact hmod.withMap fun p hp => Option.some.inj hp ▸ hy

theorem hold (I : Linked s L) : Linked (holdState s x pid) L :=
  (I.mark x true).withMap (by simp)

theorem give (I : Linked s L) (hx : x < s.next) : Linked (giveState s x) L :=
  (I.mark x true).insertFree hx

/-! ### The loops -/

theorem getBuddy_lt (I : Linked s L) {b : Ptr} (hb : s.getBuddy x = some b) (hx : x < s.next) :
    b < s.next := by
  rw [getBuddy] at hb
  cases hpar : (s.heap x).parent with
  | none => simp [hpar] at hb
  | some p =>
      have hp := I.good p ((I.good x hx).parent_lt p hpar)
      simp only [hpar] at hb
      split_ifs at hb with hleft
      · exact hp.right_lt b hb
      · exact hp.left_lt b hb

/-- The end of a merge: the parent of `z` loses its children. -/
theorem cutParent (I : Linked s L) {z : Ptr} {v : BuddySystem × Option Ptr} (hz : z < s.next)
    (hgo : Buddy.cutParent s z = some v) :
    Linked v.1 L ∧ v.1.blockMap = s.blockMap ∧ ∀ p, v.2 = some p → p < v.1.next := by
  -- Each of the two assignments alone keeps the links good.
  have hleft : ∀ {s' : BuddySystem} (p : Ptr), Linked s' L →
      Linked (s'.modify p fun b => { b with left := none }) L := by
    intro s' p I'
    refine I'.modify p ?_ fun _ => I'.top
    intro hp
    rcases I'.good p hp with ⟨hpar, _, hr, hr0, hsz⟩
    exact ⟨hpar, by simp, hr, hr0, hsz⟩
  have hright : ∀ {s' : BuddySystem} (p : Ptr), Linked s' L →
      Linked (s'.modify p fun b => { b with right := none }) L := by
    intro s' p I'
    refine I'.modify p ?_ fun _ => I'.top
    intro hp
    rcases I'.good p hp with ⟨hpar, hl, _, _, hsz⟩
    exact ⟨hpar, hl, by simp, by simp, hsz⟩
  rw [Buddy.cutParent] at hgo
  cases hpar : (s.heap z).parent with
  | none => simp [hpar] at hgo
  | some p =>
      simp only [hpar] at hgo
      split_ifs at hgo
      · obtain rfl := Option.some.inj hgo
        have I' := hleft p (hright p I)
        exact ⟨I', rfl, (I'.good z hz).parent_lt⟩
      · obtain rfl := Option.some.inj hgo
        have I' := hright p (hleft p I)
        exact ⟨I', rfl, (I'.good z hz).parent_lt⟩
      · obtain rfl := Option.some.inj hgo
        exact ⟨I, rfl, fun q hq => (I.good z hz).parent_lt q (hpar.trans hq)⟩

/-- A merge of any two blocks. -/
theorem mergeInto (I : Linked s L) {z w : Ptr} {v : BuddySystem × Option Ptr} (hz : z < s.next)
    (hw : w < s.next) (hgo : s.mergeInto z w = some v) :
    Linked v.1 L ∧ v.1.blockMap = s.blockMap ∧ ∀ p, v.2 = some p → p < v.1.next := by
  have I1 : Linked (s.modify z fun b => { b with size := b.size * 2 }) L := by
    refine I.modify z ?_ fun _ => I.top
    intro _
    rcases I.good z hz with ⟨hpar, hl, hr, hr0, j, hLj, hj⟩
    exact ⟨hpar, hl, hr, hr0, j + 1, Nat.le_succ_of_le hLj, by simp [hj, pow_succ]⟩
  generalize hs1 : s.modify z (fun b => { b with size := b.size * 2 }) = s1 at I1
  have hn1 : s1.next = s.next := by rw [← hs1]; rfl
  have I2 : Linked (s1.modify z fun b => { b with right := (s1.heap w).right }) L := by
    refine I1.modify z ?_ fun _ => I1.top
    intro hz1
    have hgw := I1.good w (hn1 ▸ hw)
    rcases I1.good z hz1 with ⟨hpar, hl, _, _, hsz⟩
    exact ⟨hpar, hl, hgw.right_lt, hgw.right_ne, hsz⟩
  generalize hs2 : s1.modify z (fun b => { b with right := (s1.heap w).right }) = s2 at I2
  have hz2 : z < s2.next := by rw [← hs2]; exact hn1 ▸ hz
  have hmap2 : s2.blockMap = s.blockMap := by rw [← hs2, ← hs1]; rfl
  simp only [BuddySystem.mergeInto, hs1, hs2] at hgo
  cases hr : (s2.heap z).right with
  | none =>
      simp only [hr] at hgo
      rw [← hmap2]
      exact (I2.mark z true).cutParent hz2 hgo
  | some r =>
      -- The moved child is not the root, so the root stays without a parent.
      have hr0 : r ≠ 0 := by
        rintro rfl
        exact (I2.good z hz2).right_ne hr
      have I3 : Linked (s2.modify r fun b => { b with parent := some z }) L := by
        refine I2.modify r ?_ fun h => absurd h hr0
        intro hrlt
        rcases I2.good r hrlt with ⟨_, hl, hrr, hrr0, hsz⟩
        exact ⟨fun q hq => Option.some.inj hq ▸ hz2, hl, hrr, hrr0, hsz⟩
      simp only [hr] at hgo
      rw [← hmap2]
      exact (I3.mark z true).cutParent hz2 hgo

theorem merge (I : Linked s L) {below : Ptr → Ptr → Bool} {b : Ptr} {v : BuddySystem × Option Ptr}
    (hx : x < s.next) (hb : b < s.next) (hgo : s.merge below x b = some v) :
    Linked v.1 L ∧ v.1.blockMap = s.blockMap ∧ ∀ p, v.2 = some p → p < v.1.next := by
  have I1 : Linked (s.removeFree b) L := I.withFree fun p hp => (List.mem_filter.1 hp).1
  rw [BuddySystem.merge] at hgo
  split_ifs at hgo with hswap
  · exact I1.mergeInto hb hx hgo
  · exact I1.mergeInto hx hb hgo

theorem mergeLoop (I : Linked s L) {below : Ptr → Ptr → Bool} (hx : x < s.next)
    (hgo : LoopsTo (mergeStep below) (s, some x) s') :
    Linked s' L ∧ s'.blockMap = s.blockMap := by
  refine hgo.invariant
    (fun v => Linked v.1 L ∧ v.1.blockMap = s.blockMap ∧ ∀ p, v.2 = some p → p < v.1.next)
    (fun s' => Linked s' L ∧ s'.blockMap = s.blockMap) ?_ ?_
    ⟨I, rfl, fun p hp => Option.some.inj hp ▸ hx⟩
  · -- The loop goes on after a merge with the parent in hand.
    rintro ⟨s1, o⟩ v ⟨I1, hmap1, ho⟩ hstep
    cases o with
    | none => simp [mergeStep] at hstep
    | some p =>
        have hp := ho p rfl
        simp only [mergeStep] at hstep
        cases hbuddy : s1.getBuddy p with
        | none => simp [hbuddy] at hstep
        | some b =>
            simp only [hbuddy] at hstep
            split_ifs at hstep with hfree
            · cases hmerge : s1.merge below p b with
              | none => simp [hmerge] at hstep
              | some out =>
                  have hv : out = v := by simpa [hmerge] using hstep
                  subst hv
                  rcases I1.merge hp (I1.getBuddy_lt hbuddy hp) hmerge with ⟨I2, hmap2, ho2⟩
                  exact ⟨I2, hmap2.trans hmap1, ho2⟩
            · simp at hstep
  · -- It ends without a buddy, or with one in use.
    rintro ⟨s1, o⟩ v ⟨I1, hmap1, ho⟩ hstep
    cases o with
    | none =>
        have hv : s1 = v := by simpa [mergeStep] using hstep
        exact hv ▸ ⟨I1, hmap1⟩
    | some p =>
        have hgive : Linked (giveState s1 p) L ∧ (giveState s1 p).blockMap = s.blockMap :=
          ⟨I1.give (ho p rfl), hmap1⟩
        simp only [mergeStep] at hstep
        cases hbuddy : s1.getBuddy p with
        | none =>
            have hv : giveState s1 p = v := by simpa [hbuddy, giveState] using hstep
            exact hv ▸ hgive
        | some b =>
            simp only [hbuddy] at hstep
            split_ifs at hstep with hfree
            · cases hmerge : s1.merge below p b <;> simp [hmerge] at hstep
            · have hv : giveState s1 p = v := by simpa [giveState] using hstep
              exact hv ▸ hgive

theorem markLoop (I : Linked s L) (hgo : LoopsTo markStep (s, x) s') :
    Linked s' L ∧ s'.blockMap = s.blockMap ∧ ∀ p, (s'.heap p).size = (s.heap p).size := by
  -- The flags of the ancestors change, sizes do not.
  have hmark : ∀ {s1 : BuddySystem} {q : Ptr} (p : Ptr),
      ((s1.modify q fun b => { b with free := false }).heap p).size = (s1.heap p).size := by
    intro s1 q p
    by_cases hp : p = q
    · subst hp
      simp [BuddySystem.modify]
    · simp [BuddySystem.modify, hp]
  refine hgo.invariant
    (fun v => Linked v.1 L ∧ v.1.blockMap = s.blockMap ∧ ∀ p, (v.1.heap p).size = (s.heap p).size)
    (fun s' => Linked s' L ∧ s'.blockMap = s.blockMap ∧ ∀ p, (s'.heap p).size = (s.heap p).size)
    ?_ ?_ ⟨I, rfl, fun _ => rfl⟩
  · rintro ⟨s1, y⟩ v ⟨I1, hmap, hsize⟩ hstep
    rw [markStep] at hstep
    cases hpar : (s1.heap y).parent with
    | none => simp [hpar] at hstep
    | some p =>
        have hv : (s1.modify p fun b => { b with free := false }, p) = v := by
          simpa [hpar] using hstep
        subst hv
        exact ⟨I1.mark p false, hmap, fun q => (hmark q).trans (hsize q)⟩
  · rintro ⟨s1, y⟩ v hv hstep
    rw [markStep] at hstep
    cases hpar : (s1.heap y).parent with
    | none =>
        have heq : s1 = v := by simpa [hpar] using hstep
        exact heq ▸ hv
    | some p => simp [hpar] at hstep

/-- The split loop, in any state: the block it leaves with is large enough, is no larger than the
block it started with, has its size or exceeds the request, and is not to be halved. -/
theorem splitLoop (I : Linked s L) (hx : x < s.next) (hfit : size ≤ (s.heap x).size)
    (hgo : LoopsTo (splitStep size) (s, x) (s', y)) :
    Linked s' L ∧ y < s'.next ∧ s'.blockMap = s.blockMap ∧ size ≤ (s'.heap y).size ∧
      (s'.heap y).size ≤ (s.heap x).size ∧
      ((s'.heap y).size = (s.heap x).size ∨ size < (s'.heap y).size) ∧
      ¬ ((s'.heap y).size.tdiv 2 > size ∧ (s'.heap y).size.tdiv 2 ≥ 2 ^ L) := by
  -- A half that was taken exceeds the request, as the test of the loop is strict.
  let Inv : BuddySystem × Ptr → Prop := fun v =>
    Linked v.1 L ∧ v.2 < v.1.next ∧ v.1.blockMap = s.blockMap ∧ size ≤ (v.1.heap v.2).size ∧
      (v.1.heap v.2).size ≤ (s.heap x).size ∧
      ((v.1.heap v.2).size = (s.heap x).size ∨ size < (v.1.heap v.2).size)
  have hpost := hgo.invariant Inv
    (fun v => Inv v ∧ ¬ ((v.1.heap v.2).size.tdiv 2 > size ∧ (v.1.heap v.2).size.tdiv 2 ≥ 2 ^ L))
    ?_ ?_ ⟨I, hx, rfl, hfit, le_refl _, Or.inl rfl⟩
  · rcases hpost with ⟨⟨I', hy, hmap, hfit', hle, hor⟩, hstop⟩
    exact ⟨I', hy, hmap, hfit', hle, hor, hstop⟩
  · rintro ⟨s1, z⟩ v ⟨I1, hz, hmap, _, hle, _⟩ hstep
    by_cases hcond : (s1.heap z).size.tdiv 2 > size ∧ (s1.heap z).size.tdiv 2 ≥ s1.minBlockSize
    · rw [splitStep_again hz hcond] at hstep
      have hv : (splitState s1 z, s1.next) = v := by simpa using hstep
      subst hv
      have hleft : (splitState s1 z).heap s1.next = _ := splitHeap_left
      -- The new block in hand is a half that still exceeds the request.
      have hsize : size < ((splitState s1 z).heap s1.next).size := by
        rw [hleft]
        exact hcond.1
      have hhalf : ((splitState s1 z).heap s1.next).size ≤ (s1.heap z).size := by
        rcases (I1.good z hz).sized with ⟨j, _, hj⟩
        have hpos : (0 : Int) < 2 ^ j := by positivity
        rw [hleft, hj, Int.tdiv_eq_ediv_of_nonneg hpos.le]
        simp only
        omega
      exact ⟨I1.split hz hcond.2, Nat.lt_succ_of_lt (Nat.lt_succ_self _), hmap, le_of_lt hsize,
        hhalf.trans hle, Or.inr hsize⟩
    · simp [splitStep, hcond] at hstep
  · rintro ⟨s1, z⟩ v hinv hstep
    by_cases hcond : (s1.heap z).size.tdiv 2 > size ∧ (s1.heap z).size.tdiv 2 ≥ s1.minBlockSize
    · rw [splitStep_again hinv.2.1 hcond] at hstep
      simp at hstep
    · have hv : (s1, z) = v := by simpa [splitStep, hcond] using hstep
      subst hv
      exact ⟨hinv, hinv.1.minBlock ▸ hcond⟩

end Linked

/-- What a grant does, in any state of which `Linked` holds. -/
theorem Grants.spec (hg : Grants s pid size s' y) (I : Linked s L) :
    ∃ x rest, takeFit s.heap size s.freeList = some (x, rest) ∧ Linked s' L ∧
      s'.blockMap = Function.update s.blockMap pid (some y) ∧ y < s'.next ∧
      size ≤ (s'.heap y).size ∧ (s'.heap y).size ≤ (s.heap x).size ∧
      ((s'.heap y).size = (s.heap x).size ∨ size < (s'.heap y).size) ∧
      ¬ ((s'.heap y).size.tdiv 2 > size ∧ (s'.heap y).size.tdiv 2 ≥ 2 ^ L) := by
  rcases hg with ⟨x, rest, s₁, hfit, hsplit, hmark⟩
  rcases takeFit_some hfit with ⟨pre, post, hlist, rfl, hsize, _⟩
  have hx : x < s.next := I.listed x (by simp [hlist])
  have I0 : Linked { s with freeList := pre ++ post } L := by
    refine I.withFree ?_
    intro p hp
    rw [hlist]
    rcases List.mem_append.1 hp with hp | hp
    · exact List.mem_append_left _ hp
    · exact List.mem_append_right _ (List.mem_cons_of_mem x hp)
  rcases I0.splitLoop hx hsize hsplit with ⟨I1, hy, hmap, hfit1, hle, hor, hstop⟩
  have Ig : Linked (grantState s₁ y pid size) L := I1.grant hy
  rcases Ig.markLoop hmark with ⟨I2, hmap2, hsize2⟩
  have hsame : (s'.heap y).size = (s₁.heap y).size := by
    rw [hsize2, grantState_self]
  refine ⟨x, _, hfit, I2, ?_, ?_, ?_, ?_, ?_, ?_⟩
  · rw [hmap2, grantState, hmap]
  · exact I2.mapped pid y (by rw [hmap2, grantState]; simp)
  · rw [hsame]
    exact hfit1
  · rw [hsame]
    exact hle
  · rw [hsame]
    exact hor
  · rw [hsame]
    exact hstop

/-- What a release does, in any state of which `Linked` holds. -/
theorem GivesBack.spec {below : Ptr → Ptr → Bool} (hg : GivesBack s below pid s')
    (I : Linked s L) : Linked s' L ∧ s'.blockMap = Function.update s.blockMap pid none := by
  rw [GivesBack] at hg
  cases hmap : s.blockMap pid with
  | none =>
      simp only [hmap] at hg
      subst hg
      exact ⟨I, by rw [← hmap, Function.update_eq_self]⟩
  | some block =>
      simp only [hmap] at hg
      exact I.hold.mergeLoop (I.mapped pid block hmap) hg

/-! ## The ledger -/

/-- Every reachable state is `Linked`; a process that holds nothing has no entry in `blockMap`, except
that the number `0` has the root until its first release. -/
theorem Reach.spec (hLU : L ≤ U) {rs : List Request} {holds : Int → Bool}
    (hreach : Reach L U rs s holds) :
    Linked s L ∧ ∀ pid, holds pid = false →
      s.blockMap pid =
        if pid = 0 ∧ ¬ ∃ r ∈ rs, r.terminate = true ∧ r.pid = 0 then some 0 else none := by
  induction hreach with
  | start =>
      refine ⟨Linked.init hLU, ?_⟩
      intro pid _
      by_cases hpid : pid = 0
      · simp [hpid, init]
      · simp [hpid, init]
  | @granted rs s s' holds r y hreach hterm hg ih =>
      rcases hg.spec ih.1 with ⟨_, _, _, I', hmap, _⟩
      refine ⟨I', ?_⟩
      intro pid hnone
      -- A process just granted a block does hold something.
      have hne : pid ≠ r.pid := by
        rintro rfl
        simp at hnone
      have hold := ih.2 pid (by simpa [hne] using hnone)
      rw [hmap, Function.update_of_ne hne, hold]
      simp [hterm]
  | @refused rs s holds r hreach hterm hfit ih =>
      refine ⟨ih.1, ?_⟩
      intro pid hnone
      rw [ih.2 pid hnone]
      simp [hterm]
  | @released rs s s' holds r hreach hterm hg ih =>
      rcases hg.spec ih.1 with ⟨I', hmap⟩
      refine ⟨I', ?_⟩
      intro pid hnone
      rw [hmap]
      by_cases hpid : pid = r.pid
      · -- Just released; if the number is `0`, this is the release asked for.
        subst hpid
        have hno : ¬ (r.pid = 0 ∧ ¬ ∃ q ∈ rs ++ [r], q.terminate = true ∧ q.pid = 0) := by
          rintro ⟨h0, hnot⟩
          exact hnot ⟨r, by simp, hterm, h0⟩
        rw [Function.update_self, if_neg hno]
      · have hold := ih.2 pid (by simpa [hpid] using hnone)
        rw [Function.update_of_ne hpid, hold]
        by_cases h0 : pid = 0
        · have hr0 : r.pid ≠ 0 := fun h => hpid (h0.trans h.symm)
          simp [hr0]
        · simp [h0]

/-! ## Releasing a process that holds nothing -/

/-- Releasing `pid` leaves the tree, every flag and the free list as they are, and no later sequence
of requests can tell that it happened. -/
def ReleaseNoOp (s : BuddySystem) (below : Ptr → Ptr → Bool) (pid : Int) : Prop :=
  ∃ s', GivesBack s below pid s' ∧ s'.tree = s.tree ∧
    (∀ p, (s'.heap p).free = (s.heap p).free) ∧ s'.freeList = s.freeList ∧
    ∀ rs v, Follows s' rs v ↔ Follows s rs v

theorem releaseNoOp_of_no_entry {below : Ptr → Ptr → Bool} (hmap : s.blockMap pid = none) :
    ReleaseNoOp s below pid := by
  refine ⟨s, ?_, rfl, fun _ => rfl, rfl, fun _ _ => Iff.rfl⟩
  rw [GivesBack, hmap]

/-- The root has no buddy, so releasing it puts it on the free list once more. -/
theorem Linked.release_root (I : Linked s L) {below : Ptr → Ptr → Bool}
    (hmap : s.blockMap pid = some 0) (hg : GivesBack s below pid s') :
    s'.freeList.length = s.freeList.length + 1 := by
  simp only [GivesBack, hmap] at hg
  have hpar : ((holdState s 0 pid).heap 0).parent = none := by
    simpa [holdState] using I.top
  have hexit : mergeStep below (holdState s 0 pid, some 0) =
      some (.inr (giveState (holdState s 0 pid) 0)) := by
    simp [mergeStep, getBuddy, hpar, giveState]
  rw [hg.eq_of_exit hexit]
  exact (insertFree_perm _ 0).length_eq

/-- Whatever requests with whatever process numbers came before, releasing a process that holds
nothing is without effect exactly when the process is not `0` or `0` has been released before. -/
theorem release_noop_iff (L U : Nat) (hLU : L ≤ U) (rs : List Request) (s : BuddySystem)
    (holds : Int → Bool) (hreach : Reach L U rs s holds) (below : Ptr → Ptr → Bool) (pid : Int)
    (hnone : holds pid = false) :
    ReleaseNoOp s below pid ↔ (pid ≠ 0 ∨ ∃ r ∈ rs, r.terminate = true ∧ r.pid = 0) := by
  rcases hreach.spec hLU with ⟨I, hledger⟩
  have hmap := hledger pid hnone
  by_cases hroot : pid = 0 ∧ ¬ ∃ r ∈ rs, r.terminate = true ∧ r.pid = 0
  · -- The root is still stored under `0`.
    rw [if_pos hroot] at hmap
    constructor
    · rintro ⟨s', hg, _, _, hlist, _⟩
      have hlen := I.release_root hmap hg
      rw [hlist] at hlen
      omega
    · rintro (hpid | hrel)
      · exact absurd hroot.1 hpid
      · exact absurd hrel hroot.2
  · -- There is no entry, and the code reports an error.
    rw [if_neg hroot] at hmap
    constructor
    · intro _
      by_cases hpid : pid = 0
      · right
        by_contra hnot
        exact hroot ⟨hpid, hnot⟩
      · exact Or.inl hpid
    · intro _
      exact releaseNoOp_of_no_entry hmap

/-- A process that was never granted anything, after a refused request of its own. -/
theorem release_noop_iff_refused :
    ReleaseNoOp (init (2 ^ 0) (2 ^ 3)) (fun _ _ => false) 7 ↔
      ((7 : Int) ≠ 0 ∨
        ∃ r ∈ [(⟨7, 9, false, fun _ _ => false⟩ : Request)], r.terminate = true ∧ r.pid = 0) :=
  release_noop_iff 0 3 (by decide) _ _ _ (Reach.start.refused rfl (by decide)) _ 7 rfl

/-- In the initial state no process holds anything, and releasing `0` changes the free list. -/
theorem release_root_twice_listed :
    Reach 0 3 [] (init (2 ^ 0) (2 ^ 3)) (fun _ => false) ∧
      ¬ ReleaseNoOp (init (2 ^ 0) (2 ^ 3)) (fun _ _ => false) 0 := by
  refine ⟨Reach.start, ?_⟩
  rintro ⟨s', hg, _, _, hlist, _⟩
  have I : Linked (init (2 ^ 0) (2 ^ 3)) 0 := Linked.init (by decide)
  have hlen := I.release_root rfl hg
  rw [hlist] at hlen
  omega

end Buddy
end OsLab
