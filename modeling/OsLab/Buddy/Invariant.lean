import OsLab.Buddy.Model
import OsLab.Lib.DyadicTree

/-!
# Buddy allocator — the representation invariant

The allocator keeps one memory in three forms: the tree under `root`, the free list, and the flags
and sizes inside the blocks.  `BuddyInv` ties them together between two requests.

While a request runs, exactly one block is *in hand*: it has left the free list but is not granted
yet, or it is being given back and is not on the free list yet.  `Held` is the invariant at that
moment.  It is stated about the context around the block in hand, so that

* a turn of the split loop pushes a frame onto the context, and
* a turn of the merge loop pops one.
-/

namespace OsLab
namespace Buddy

open Lib

variable {h h' : Ptr → BuddyBlock} {L U : Nat}

/-! ## Sizes and addresses -/

/-- `t` covers `[st, st + 2 ^ j)`: every node has the size and start of its part of the interval,
the children of a node are its two halves, and no block is smaller than `2 ^ L`. -/
def Sized (h : Ptr → BuddyBlock) (L : Nat) : Nat → Int → Tree → Prop
  | j, st, .leaf p => (h p).size = 2 ^ j ∧ (h p).start = st ∧ L ≤ j
  | j, st, .node p l r =>
      (h p).size = 2 ^ j ∧ (h p).start = st ∧
        ∃ i, j = i + 1 ∧ Sized h L i st l ∧ Sized h L i (st + 2 ^ i) r

/-- Two blocks over the same range of memory. -/
def SameRange (b c : BuddyBlock) : Prop :=
  b.size = c.size ∧ b.start = c.start

theorem Sized.congr :
    ∀ {t : Tree} {j : Nat} {st : Int}, (∀ p ∈ t.ptrs, SameRange (h' p) (h p)) →
      Sized h L j st t → Sized h' L j st t
  | .leaf p, j, st, hsame, hs => by
      have hp := hsame p (by simp)
      exact ⟨hp.1.trans hs.1, hp.2.trans hs.2.1, hs.2.2⟩
  | .node p l r, j, st, hsame, hs => by
      have hp := hsame p (by simp)
      rcases hs with ⟨hsize, hstart, i, hj, hl, hr⟩
      refine ⟨hp.1.trans hsize, hp.2.trans hstart, i, hj, ?_, ?_⟩
      · exact hl.congr fun q hq => hsame q (by simp [hq])
      · exact hr.congr fun q hq => hsame q (by simp [hq])

theorem Sized.root_eq {t : Tree} {j : Nat} {st : Int} (hs : Sized h L j st t) :
    (h t.root).size = 2 ^ j ∧ (h t.root).start = st := by
  cases t with
  | leaf p => exact ⟨hs.1, hs.2.1⟩
  | node p l r => exact ⟨hs.1, hs.2.1⟩

theorem Sized.level_le :
    ∀ {t : Tree} {j : Nat} {st : Int}, Sized h L j st t → L ≤ j
  | .leaf _, _, _, hs => hs.2.2
  | .node _ _ _, j, _, hs => by
      rcases hs with ⟨_, _, i, hj, hl, _⟩
      have hi := hl.level_le
      omega

/-- The hole of a sized context has a level and a start of its own, and any tree of that level and
start fills it. -/
theorem Sized.of_plug :
    ∀ {ctx : List Frame} {t : Tree} {j : Nat} {st : Int}, Sized h L j st (plug ctx t) →
      ∃ i a, i + ctx.length = j ∧ st ≤ a ∧ a + 2 ^ i ≤ st + 2 ^ j ∧ Sized h L i a t ∧
        ∀ (g : Ptr → BuddyBlock) (u : Tree), (∀ p ∈ ctxPtrs ctx, SameRange (g p) (h p)) →
          Sized g L i a u → Sized g L j st (plug ctx u)
  | [], t, j, st, hs =>
      ⟨j, st, rfl, le_refl _, le_refl _, hs, fun _ _ _ hu => hu⟩
  | f :: fs, t, j, st, hs => by
      have hs' : Sized h L j st (plug fs (f.fill t)) := hs
      rcases hs'.of_plug with ⟨i, a, hi, hlo, hhi, hfill, hrebuild⟩
      rcases f with ⟨side, top, sib⟩
      cases side with
      -- The hole is the lower half of the frame: same start, one level down.
      | L =>
          rcases hfill with ⟨hsize, hstart, k, rfl, hl, hr⟩
          have hpow : (2 : Int) ^ (k + 1) = 2 ^ k + 2 ^ k := by rw [pow_succ]; ring
          have hpos : (0 : Int) < 2 ^ k := by positivity
          refine ⟨k, a, by simp; omega, hlo, by omega, hl, ?_⟩
          intro g u hsame hu
          refine hrebuild g _ (fun p hp => hsame p (by simp [hp])) ?_
          have htop := hsame top (by simp)
          refine ⟨htop.1.trans hsize, htop.2.trans hstart, k, rfl, hu, ?_⟩
          exact hr.congr fun q hq => hsame q (by simp [hq])
      -- The hole is the upper half, which starts in the middle.
      | R =>
          rcases hfill with ⟨hsize, hstart, k, rfl, hl, hr⟩
          have hpow : (2 : Int) ^ (k + 1) = 2 ^ k + 2 ^ k := by rw [pow_succ]; ring
          have hpos : (0 : Int) < 2 ^ k := by positivity
          refine ⟨k, a + 2 ^ k, by simp; omega, by omega, by omega, hr, ?_⟩
          intro g u hsame hu
          refine hrebuild g _ (fun p hp => hsame p (by simp [hp])) ?_
          have htop := hsame top (by simp)
          refine ⟨htop.1.trans hsize, htop.2.trans hstart, k, rfl, ?_, hu⟩
          exact hl.congr fun q hq => hsame q (by simp [hq])

/-- The range `(start, size)` of a block. -/
def range (h : Ptr → BuddyBlock) (p : Ptr) : Int × Int := ((h p).start, (h p).size)

theorem Sized.tiles :
    ∀ {t : Tree} {j : Nat} {st : Int}, Sized h L j st t →
      Tiles st (st + 2 ^ j) (t.leaves.map (range h))
  | .leaf p, j, st, hs => by
      have hpos : (0 : Int) < 2 ^ j := by positivity
      simp [Tiles, range, hs.1, hs.2.1, hpos]
  | .node p l r, j, st, hs => by
      rcases hs with ⟨_, _, i, rfl, hl, hr⟩
      have hpow : st + (2 : Int) ^ (i + 1) = st + 2 ^ i + 2 ^ i := by rw [pow_succ]; ring
      have happ := hl.tiles.append hr.tiles
      simpa [hpow] using happ

/-- Different leaves start at different addresses. -/
theorem Sized.starts_nodup {t : Tree} {j : Nat} {st : Int} (hs : Sized h L j st t) :
    (t.leaves.map fun p => (h p).start).Nodup := by
  have hnd := hs.tiles.starts_nodup
  simpa [range, Function.comp_def] using hnd

/-! ## Coalescing -/

def isFree (fr : Ptr → Bool) : Tree → Bool
  | .leaf p => fr p
  | .node _ _ _ => false

/-- No node has two free leaves as children. -/
def NoTwins (fr : Ptr → Bool) : Tree → Prop
  | .leaf _ => True
  | .node _ l r => ¬ (isFree fr l = true ∧ isFree fr r = true) ∧ NoTwins fr l ∧ NoTwins fr r

/-- `NoTwins` around a hole; the flag says whether the filling is a free leaf. -/
def NoTwinsCtx (fr : Ptr → Bool) : List Frame → Bool → Prop
  | [], _ => True
  | f :: fs, b =>
      ¬ (b = true ∧ isFree fr f.sib = true) ∧ NoTwins fr f.sib ∧ NoTwinsCtx fr fs false

theorem isFree_congr {fr fr' : Ptr → Bool} {t : Tree} (hsame : ∀ p ∈ t.leaves, fr' p = fr p) :
    isFree fr' t = isFree fr t := by
  cases t with
  | leaf p => exact hsame p (by simp)
  | node p l r => rfl

theorem NoTwins.congr {fr fr' : Ptr → Bool} :
    ∀ {t : Tree}, (∀ p ∈ t.leaves, fr' p = fr p) → NoTwins fr t → NoTwins fr' t
  | .leaf _, _, _ => trivial
  | .node p l r, hsame, hn => by
      have hsl : ∀ q ∈ l.leaves, fr' q = fr q := fun q hq => hsame q (by simp [hq])
      have hsr : ∀ q ∈ r.leaves, fr' q = fr q := fun q hq => hsame q (by simp [hq])
      refine ⟨?_, hn.2.1.congr hsl, hn.2.2.congr hsr⟩
      rw [isFree_congr hsl, isFree_congr hsr]
      exact hn.1

theorem NoTwinsCtx.congr {fr fr' : Ptr → Bool} :
    ∀ {ctx : List Frame} {b : Bool}, (∀ p ∈ ctxLeaves ctx, fr' p = fr p) →
      NoTwinsCtx fr ctx b → NoTwinsCtx fr' ctx b
  | [], _, _, _ => trivial
  | f :: fs, b, hsame, hn => by
      have hsib : ∀ q ∈ f.sib.leaves, fr' q = fr q := fun q hq => hsame q (by simp [hq])
      refine ⟨?_, hn.2.1.congr hsib, hn.2.2.congr fun q hq => hsame q (by simp [hq])⟩
      rw [isFree_congr hsib]
      exact hn.1

/-- A block that is not free can take the place of a free one. -/
theorem NoTwinsCtx.to_false {fr : Ptr → Bool} {ctx : List Frame} {b : Bool}
    (hn : NoTwinsCtx fr ctx b) : NoTwinsCtx fr ctx false := by
  cases ctx with
  | nil => trivial
  | cons f fs => exact ⟨by simp, hn.2⟩

theorem noTwins_plug {fr : Ptr → Bool} :
    ∀ (ctx : List Frame) (t : Tree),
      NoTwins fr (plug ctx t) ↔ NoTwinsCtx fr ctx (isFree fr t) ∧ NoTwins fr t
  | [], t => by simp [plug, NoTwinsCtx]
  | f :: fs, t => by
      rw [plug, noTwins_plug fs (f.fill t)]
      -- The frame adds one pair of siblings: the hole and `f.sib`.
      rcases f with ⟨side, top, sib⟩
      cases side
      · simp only [Frame.fill, NoTwins, NoTwinsCtx, isFree]
        tauto
      · simp only [Frame.fill, NoTwins, NoTwinsCtx, isFree]
        tauto

/-! ## The order of the free list -/

theorem compareBlocks_trans (a b c : BuddyBlock) (hab : compareBlocks a b = true)
    (hbc : compareBlocks b c = true) : compareBlocks a c = true := by
  simp only [compareBlocks] at *
  -- Sizes decide first, then starts in descending order.
  split_ifs at * <;> simp only [decide_eq_true_eq] at * <;> omega

/-- Blocks that start at different addresses are comparable. -/
theorem compareBlocks_total {a b : BuddyBlock} (hne : a.start ≠ b.start) :
    compareBlocks a b = true ∨ compareBlocks b a = true := by
  simp only [compareBlocks]
  split_ifs <;> simp only [decide_eq_true_eq] <;> omega

/-- `p` comes before `q` in the order of the free list. -/
def Before (h : Ptr → BuddyBlock) (p q : Ptr) : Prop :=
  compareBlocks (h p) (h q) = true

/-- Unchanged blocks are ordered as they were. -/
theorem pairwise_before_congr {ps : List Ptr} (hsame : ∀ p ∈ ps, h' p = h p)
    (hs : ps.Pairwise (Before h)) : ps.Pairwise (Before h') := by
  refine hs.imp_of_mem ?_
  intro p q hp hq hpq
  rw [Before, hsame p hp, hsame q hq]
  exact hpq

namespace BuddySystem

theorem insertFree_perm (s : BuddySystem) (p : Ptr) :
    (s.insertFree p).freeList.Perm (p :: s.freeList) :=
  lowerInsert_perm (fun q q' => compareBlocks (s.heap q) (s.heap q')) p s.freeList

theorem insertFree_sorted {s : BuddySystem} {p : Ptr} (hs : s.freeList.Pairwise (Before s.heap))
    (hne : ∀ q ∈ s.freeList, (s.heap q).start ≠ (s.heap p).start) :
    (s.insertFree p).freeList.Pairwise (Before s.heap) := by
  refine lowerInsert_pairwise _ ?_ hs ?_
  · intro a b c
    exact compareBlocks_trans (s.heap a) (s.heap b) (s.heap c)
  · intro q hq
    exact compareBlocks_total (hne q hq)

end BuddySystem

/-! ## The invariant -/

/-- The tree part: `t` is the tree under `root`, made of distinct allocated blocks, cut by halving
from `[0, 2 ^ U)`, with no internal node marked free. -/
structure Shape (h : Ptr → BuddyBlock) (next root : Ptr) (L U : Nat) (t : Tree) : Prop where
  stored : Stored h none t
  root_eq : t.root = root
  nodup : t.ptrs.Nodup
  fresh : ∀ p ∈ t.ptrs, p < next
  sized : Sized h L U 0 t
  inner : ∀ p ∈ t.inner, (h p).free = false

/-- Every `int` field of every block is in the range of the memory. -/
def Fits (h : Ptr → BuddyBlock) (U : Nat) : Prop :=
  ∀ p, 0 ≤ (h p).start ∧ (h p).start ≤ 2 ^ U ∧ 0 ≤ (h p).size ∧ (h p).size ≤ 2 ^ U

/-- Every entry of `blockMap` for a process is one of the blocks `ps`, granted to that process. -/
def Owned (s : BuddySystem) (ps : List Ptr) : Prop :=
  ∀ pid p, pid ≠ 0 → s.blockMap pid = some p →
    p ∈ ps ∧ (s.heap p).free = false ∧ (s.heap p).pId = pid ∧ (s.heap p).sizeUsed ≤ (s.heap p).size

/-- The invariant between two requests. -/
structure BuddyInv (s : BuddySystem) (L U : Nat) (t : Tree) : Prop where
  minBlock : s.minBlockSize = 2 ^ L
  shape : Shape s.heap s.next s.root L U t
  fits : Fits s.heap U
  freePerm : s.freeList.Perm (t.leaves.filter fun p => (s.heap p).free)
  sorted : s.freeList.Pairwise (Before s.heap)
  noTwins : NoTwins (fun p => (s.heap p).free) t
  owned : Owned s t.leaves

/-- The invariant while the block `x`, in the hole of `ctx`, is in hand. -/
structure Held (s : BuddySystem) (L U : Nat) (ctx : List Frame) (x : Ptr) : Prop where
  minBlock : s.minBlockSize = 2 ^ L
  shape : Shape s.heap s.next s.root L U (plug ctx (.leaf x))
  fits : Fits s.heap U
  freePerm : s.freeList.Perm ((ctxLeaves ctx).filter fun p => (s.heap p).free)
  sorted : s.freeList.Pairwise (Before s.heap)
  noTwins : NoTwinsCtx (fun p => (s.heap p).free) ctx false
  owned : Owned s (ctxLeaves ctx)

/-- The granted blocks among `ps` in `s` are exactly those among `ps'` in `s'`, and they are
unchanged. -/
structure KeepsGrants (s : BuddySystem) (ps : List Ptr) (s' : BuddySystem) (ps' : List Ptr) :
    Prop where
  mem_iff : ∀ p, (p ∈ ps' ∧ (s'.heap p).free = false) ↔ (p ∈ ps ∧ (s.heap p).free = false)
  same : ∀ p ∈ ps, (s.heap p).free = false → s'.heap p = s.heap p

namespace KeepsGrants

variable {s s' s'' : BuddySystem} {ps ps' ps'' : List Ptr}

theorem refl (s : BuddySystem) (ps : List Ptr) : KeepsGrants s ps s ps :=
  ⟨fun _ => Iff.rfl, fun _ _ _ => rfl⟩

theorem trans (h1 : KeepsGrants s ps s' ps') (h2 : KeepsGrants s' ps' s'' ps'') :
    KeepsGrants s ps s'' ps'' := by
  refine ⟨fun p => (h2.mem_iff p).trans (h1.mem_iff p), ?_⟩
  intro p hp hfree
  have hp' := (h1.mem_iff p).2 ⟨hp, hfree⟩
  exact (h2.same p hp'.1 hp'.2).trans (h1.same p hp hfree)

/-- Every granted block of either side is an unchanged block of the other. -/
theorem of_agree
    (hold : ∀ p ∈ ps, (s.heap p).free = false → p ∈ ps' ∧ s'.heap p = s.heap p)
    (hnew : ∀ p ∈ ps', (s'.heap p).free = false → p ∈ ps ∧ s'.heap p = s.heap p) :
    KeepsGrants s ps s' ps' := by
  refine ⟨?_, fun p hp hfree => (hold p hp hfree).2⟩
  intro p
  constructor
  · rintro ⟨hp, hfree⟩
    rcases hnew p hp hfree with ⟨hps, hsame⟩
    exact ⟨hps, hsame ▸ hfree⟩
  · rintro ⟨hp, hfree⟩
    rcases hold p hp hfree with ⟨hps, hsame⟩
    exact ⟨hps, hsame.symm ▸ hfree⟩

theorem owned (hk : KeepsGrants s ps s' ps') (hmap : s'.blockMap = s.blockMap)
    (ho : Owned s ps) : Owned s' ps' := by
  intro pid p hpid hp
  rw [hmap] at hp
  rcases ho pid p hpid hp with ⟨hmem, hfree, hrest⟩
  have hmem' := (hk.mem_iff p).2 ⟨hmem, hfree⟩
  rw [hk.same p hmem hfree]
  exact ⟨hmem'.1, hfree, hrest⟩

end KeepsGrants

/-! ## Facts about the block in hand -/

namespace Held

variable {s : BuddySystem} {ctx : List Frame} {x : Ptr}

theorem nodup_cons (H : Held s L U ctx x) : (x :: ctxPtrs ctx).Nodup := by
  have hperm := ptrs_plug_perm ctx (.leaf x)
  simpa using hperm.nodup_iff.1 H.shape.nodup

theorem not_mem_ctxPtrs (H : Held s L U ctx x) : x ∉ ctxPtrs ctx :=
  (List.nodup_cons.1 H.nodup_cons).1

theorem ne_of_mem_ctxPtrs (H : Held s L U ctx x) {p : Ptr} (hp : p ∈ ctxPtrs ctx) : p ≠ x := by
  intro hpx
  exact H.not_mem_ctxPtrs (hpx ▸ hp)

theorem ne_of_mem_ctxLeaves (H : Held s L U ctx x) {p : Ptr} (hp : p ∈ ctxLeaves ctx) : p ≠ x :=
  H.ne_of_mem_ctxPtrs (mem_ctxPtrs_of_mem_ctxLeaves hp)

theorem lt_next (H : Held s L U ctx x) {p : Ptr} (hp : p ∈ x :: ctxPtrs ctx) : p < s.next := by
  refine H.shape.fresh p ?_
  have hperm := ptrs_plug_perm ctx (.leaf x)
  exact hperm.mem_iff.2 (by simpa using hp)

theorem mem_ctxLeaves_of_mem_freeList (H : Held s L U ctx x) {p : Ptr} (hp : p ∈ s.freeList) :
    p ∈ ctxLeaves ctx :=
  (List.mem_filter.1 (H.freePerm.mem_iff.1 hp)).1

/-- No other leaf starts where the block in hand starts. -/
theorem start_ne (H : Held s L U ctx x) {p : Ptr} (hp : p ∈ ctxLeaves ctx) :
    (s.heap p).start ≠ (s.heap x).start := by
  have hperm := (leaves_plug_perm ctx (.leaf x)).map fun p => (s.heap p).start
  have hnd := hperm.nodup_iff.1 H.shape.sized.starts_nodup
  simp only [Tree.leaves_leaf, List.singleton_append, List.map_cons, List.nodup_cons] at hnd
  intro heq
  exact hnd.1 (heq ▸ List.mem_map_of_mem hp)

theorem size_pos (H : Held s L U ctx x) : 0 < (s.heap x).size := by
  rcases H.shape.sized.of_plug with ⟨i, _, _, _, _, hleaf, _⟩
  have hpos : (0 : Int) < 2 ^ i := by positivity
  exact hleaf.1 ▸ hpos

theorem end_le (H : Held s L U ctx x) : (s.heap x).start + (s.heap x).size ≤ 2 ^ U := by
  rcases H.shape.sized.of_plug with ⟨i, a, _, _, hend, hleaf, _⟩
  rw [hleaf.1, hleaf.2.1]
  omega

theorem inner_ctx (H : Held s L U ctx x) {p : Ptr} (hp : p ∈ ctxInner ctx) :
    (s.heap p).free = false := by
  refine H.shape.inner p ?_
  have hperm := inner_plug_perm ctx (.leaf x)
  exact hperm.mem_iff.2 (by simpa using hp)

end Held

/-! ## Filling the hole anew -/

/-- Another tree over the same range of memory fills the hole, when nothing around it changes. -/
theorem Shape.refill {next next' root : Ptr} {ctx : List Frame} {t u : Tree}
    (hs : Shape h next root L U (plug ctx t)) (hctx : ∀ p ∈ ctxPtrs ctx, h' p = h p)
    (hnext : next ≤ next') (hroot : u.root = t.root) (hstored : Stored h' (holeParent none ctx) u)
    (hnodup : u.ptrs.Nodup) (hptrs : ∀ p ∈ u.ptrs, p ∉ ctxPtrs ctx ∧ p < next')
    (hsized : ∀ i a, Sized h L i a t → Sized h' L i a u)
    (hinner : ∀ p ∈ u.inner, (h' p).free = false) :
    Shape h' next' root L U (plug ctx u) := by
  have hptrs_t := ptrs_plug_perm ctx t
  have hptrs_u := ptrs_plug_perm ctx u
  have hst := (stored_plug h none ctx t).1 hs.stored
  refine ⟨(stored_plug h' none ctx u).2 ⟨?_, hstored⟩, ?_, ?_, ?_, ?_, ?_⟩
  · rw [hroot]
    refine hst.1.congr ?_
    intro p hp
    rw [hctx p hp]
    exact SameLinks.rfl' _
  · rw [← hs.root_eq]
    exact root_plug_eq hroot ctx
  · -- The new pointers are distinct among themselves and not found in the context.
    refine hptrs_u.nodup_iff.2 (List.nodup_append'.2 ⟨hnodup, ?_, ?_⟩)
    · exact (List.nodup_append'.1 (hptrs_t.nodup_iff.1 hs.nodup)).2.1
    · intro p hp
      exact (hptrs p hp).1
  · intro p hp
    rcases List.mem_append.1 (hptrs_u.mem_iff.1 hp) with hp | hp
    · exact (hptrs p hp).2
    · exact lt_of_lt_of_le (hs.fresh p (hptrs_t.mem_iff.2 (List.mem_append_right _ hp))) hnext
  · -- The hole keeps its level and its start, and the new tree has the same.
    rcases hs.sized.of_plug with ⟨i, a, _, _, _, ht, hrebuild⟩
    refine hrebuild h' u ?_ (hsized i a ht)
    intro p hp
    rw [hctx p hp]
    exact ⟨rfl, rfl⟩
  · intro p hp
    rcases List.mem_append.1 ((inner_plug_perm ctx u).mem_iff.1 hp) with hp | hp
    · exact hinner p hp
    · rw [hctx p (mem_ctxPtrs_of_mem_ctxInner hp)]
      exact hs.inner p ((inner_plug_perm ctx t).mem_iff.2 (List.mem_append_right _ hp))

/-- A change of a leaf that keeps its links and its range keeps the shape. -/
theorem Shape.update_leaf {next root x : Ptr} {ctx : List Frame} {b : BuddyBlock}
    (hs : Shape h next root L U (plug ctx (.leaf x))) (hlinks : SameLinks b (h x))
    (hrange : SameRange b (h x)) :
    Shape (Function.update h x b) next root L U (plug ctx (.leaf x)) := by
  have hperm := ptrs_plug_perm ctx (.leaf x)
  have hx : x ∉ ctxPtrs ctx := by
    have hnd := hperm.nodup_iff.1 hs.nodup
    exact (List.nodup_cons.1 (by simpa using hnd)).1
  have hlt : x < next := hs.fresh x (hperm.mem_iff.2 (by simp))
  refine hs.refill ?_ (le_refl next) rfl ?_ (by simp) (by simp [hx, hlt]) ?_ (by simp)
  · intro p hp
    have hpx : p ≠ x := fun hpx => hx (hpx ▸ hp)
    simp [hpx]
  · refine ((stored_plug h none ctx (.leaf x)).1 hs.stored).2.congr ?_
    intro p hp
    have hpx : p = x := by simpa using hp
    simpa [hpx] using hlinks
  · intro i a hsized
    refine hsized.congr ?_
    intro p hp
    have hpx : p = x := by simpa using hp
    simpa [hpx] using hrange

/-- Fields other than the range play no part in `Fits`. -/
theorem Fits.update {x : Ptr} {b : BuddyBlock} (hf : Fits h U) (hrange : SameRange b (h x)) :
    Fits (Function.update h x b) U := by
  intro p
  by_cases hp : p = x
  · subst hp
    rw [Function.update_self, hrange.1, hrange.2]
    exact hf p
  · rw [Function.update_of_ne hp]
    exact hf p

/-- Unchanged blocks are as free as they were. -/
theorem filter_free_congr {ps : List Ptr} (hsame : ∀ p ∈ ps, h' p = h p) :
    ps.filter (fun p => (h' p).free) = ps.filter fun p => (h p).free :=
  List.filter_congr fun p hp => by rw [hsame p hp]

end Buddy
end OsLab
