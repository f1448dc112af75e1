import Mathlib.Data.List.Nodup
import Mathlib.Algebra.Order.Ring.Int
import Mathlib.Tactic.Positivity
import Mathlib.Tactic.Ring

/-!
# DyadicTree — tilings of an interval by recursive halving

A `DTree` says how an interval of length `2 ^ j` is cut: a leaf is one block, free or taken, and a
node is cut into two halves.  A tree is *coalesced* when no node has two free leaves as children.

The main result is `DTree.eq_of_taken_eq`: among coalesced trees, the taken blocks determine the
whole tree.  Nothing about how the tree was reached matters.
-/

namespace OsLab
namespace Lib

/-! ## Tilings -/

/-- The blocks `(start, size)` follow each other from `lo` to `hi` without gap or overlap. -/
def Tiles : Int → Int → List (Int × Int) → Prop
  | lo, hi, [] => lo = hi
  | lo, hi, b :: bs => b.1 = lo ∧ 0 < b.2 ∧ Tiles (lo + b.2) hi bs

theorem Tiles.append {mid hi : Int} {cs : List (Int × Int)} :
    ∀ {lo : Int} {bs : List (Int × Int)}, Tiles lo mid bs → Tiles mid hi cs →
      Tiles lo hi (bs ++ cs)
  | lo, [], hb, hc => by
      have hlo : lo = mid := hb
      simpa [hlo] using hc
  | lo, b :: bs, hb, hc => ⟨hb.1, hb.2.1, hb.2.2.append hc⟩

theorem Tiles.bounds {hi : Int} :
    ∀ {lo : Int} {bs : List (Int × Int)}, Tiles lo hi bs →
      lo ≤ hi ∧ ∀ b ∈ bs, lo ≤ b.1 ∧ b.1 + b.2 ≤ hi ∧ 0 < b.2
  | lo, [], h => by
      have hlo : lo = hi := h
      simp [hlo]
  | lo, b :: bs, h => by
      rcases h with ⟨hstart, hpos, hrest⟩
      rcases hrest.bounds with ⟨hle, hall⟩
      refine ⟨by omega, ?_⟩
      intro c hc
      rcases List.mem_cons.1 hc with hc | hc
      · subst hc
        exact ⟨by omega, by omega, hpos⟩
      · have hc' := hall c hc
        exact ⟨by omega, hc'.2.1, hc'.2.2⟩

/-- Blocks of a tiling are in ascending order and do not overlap. -/
theorem Tiles.pairwise {hi : Int} :
    ∀ {lo : Int} {bs : List (Int × Int)}, Tiles lo hi bs →
      bs.Pairwise fun b c => b.1 + b.2 ≤ c.1
  | lo, [], _ => List.Pairwise.nil
  | lo, b :: bs, h => by
      rcases h with ⟨hstart, hpos, hrest⟩
      refine List.pairwise_cons.2 ⟨?_, hrest.pairwise⟩
      intro c hc
      have hc' := (hrest.bounds.2 c hc).1
      omega

theorem Tiles.starts_nodup {lo hi : Int} {bs : List (Int × Int)} (h : Tiles lo hi bs) :
    (bs.map Prod.fst).Nodup := by
  refine List.pairwise_map.2 ?_
  refine h.pairwise.imp_of_mem ?_
  intro b c hb _ hbc heq
  -- Blocks are not empty, so the later one starts later.
  have hpos := (h.bounds.2 b hb).2.2
  omega

/-! ## Trees of halvings -/

inductive DTree
  | leaf (free : Bool)
  | node (l r : DTree)
  deriving DecidableEq, Repr

namespace DTree

/-- The tree has at most `j` levels of halving. -/
def Fits : Nat → DTree → Prop
  | _, leaf _ => True
  | 0, node _ _ => False
  | j + 1, node l r => Fits j l ∧ Fits j r

/-- The blocks `((start, size), free)` that a tree cuts `[st, st + 2 ^ j)` into. -/
def blocks : Nat → Int → DTree → List ((Int × Int) × Bool)
  | j, st, leaf b => [((st, 2 ^ j), b)]
  | 0, _, node _ _ => []
  | j + 1, st, node l r => blocks j st l ++ blocks j (st + 2 ^ j) r

/-- No two free leaves are siblings. -/
def Coalesced : DTree → Prop
  | leaf _ => True
  | node l r => ¬ (l = leaf true ∧ r = leaf true) ∧ l.Coalesced ∧ r.Coalesced

/-- `Taken j st d b`: the block `b` is a leaf of `d` that is not free. -/
def Taken (j : Nat) (st : Int) (d : DTree) (b : Int × Int) : Prop :=
  (b, false) ∈ d.blocks j st

theorem taken_node_iff {j : Nat} {st : Int} {l r : DTree} {b : Int × Int} :
    Taken (j + 1) st (node l r) b ↔ Taken j st l b ∨ Taken j (st + 2 ^ j) r b := by
  simp [Taken, blocks]

theorem blocks_bounds :
    ∀ {d : DTree} {j : Nat} {st : Int} {b : (Int × Int) × Bool}, b ∈ d.blocks j st →
      st ≤ b.1.1 ∧ b.1.1 + b.1.2 ≤ st + 2 ^ j ∧ 0 < b.1.2
  | leaf free, j, st, b, h => by
      have hb : b = ((st, 2 ^ j), free) := by simpa [blocks] using h
      have hpos : (0 : Int) < 2 ^ j := by positivity
      subst hb
      exact ⟨le_refl _, le_refl _, hpos⟩
  | node l r, 0, st, b, h => by
      simp [blocks] at h
  | node l r, j + 1, st, b, h => by
      have hpow : (2 : Int) ^ (j + 1) = 2 ^ j + 2 ^ j := by rw [pow_succ]; ring
      have hpos : (0 : Int) < 2 ^ j := by positivity
      rcases List.mem_append.1 h with h | h
      · have hb := blocks_bounds h
        exact ⟨hb.1, by omega, hb.2.2⟩
      · have hb := blocks_bounds h
        exact ⟨by omega, by omega, hb.2.2⟩

/-- A block inside a halved interval is at most half as long. -/
theorem not_taken_whole {l r : DTree} {j : Nat} {st a : Int} :
    ¬ Taken j st (node l r) (a, 2 ^ j) := by
  intro h
  rcases j with _ | j
  · simp [Taken, blocks] at h
  · have hpow : (2 : Int) ^ (j + 1) = 2 ^ j + 2 ^ j := by rw [pow_succ]; ring
    have hpos : (0 : Int) < 2 ^ j := by positivity
    -- Each half is shorter than the block.
    rcases taken_node_iff.1 h with h | h
    · have hb := blocks_bounds h
      simp only at hb
      omega
    · have hb := blocks_bounds h
      simp only at hb
      omega

/-- A coalesced tree without taken blocks is a single free block. -/
theorem eq_leaf_of_no_taken :
    ∀ {d : DTree} {j : Nat} {st : Int}, d.Fits j → d.Coalesced → (∀ b, ¬ Taken j st d b) →
      d = leaf true
  | leaf true, _, _, _, _, _ => rfl
  | leaf false, j, st, _, _, hno => by
      exact absurd (by simp [Taken, blocks]) (hno (st, 2 ^ j))
  | node l r, 0, _, hfit, _, _ => by
      exact absurd hfit (by simp [Fits])
  | node l r, j + 1, st, hfit, hco, hno => by
      have hl : l = leaf true :=
        eq_leaf_of_no_taken hfit.1 hco.2.1 fun b hb => hno b (taken_node_iff.2 (Or.inl hb))
      have hr : r = leaf true :=
        eq_leaf_of_no_taken hfit.2 hco.2.2 fun b hb => hno b (taken_node_iff.2 (Or.inr hb))
      -- Two free leaves would have been coalesced.
      exact absurd ⟨hl, hr⟩ hco.1

/-- The taken blocks of the left half are the taken blocks that start below the middle. -/
theorem taken_left_iff {l r : DTree} {j : Nat} {st : Int} {b : Int × Int} :
    Taken j st l b ↔ Taken (j + 1) st (node l r) b ∧ b.1 < st + 2 ^ j := by
  constructor
  · intro h
    have hb := blocks_bounds h
    exact ⟨taken_node_iff.2 (Or.inl h), by simp only at hb; omega⟩
  · rintro ⟨h, hlt⟩
    rcases taken_node_iff.1 h with h | h
    · exact h
    · have hb := blocks_bounds h
      simp only at hb
      omega

theorem taken_right_iff {l r : DTree} {j : Nat} {st : Int} {b : Int × Int} :
    Taken j (st + 2 ^ j) r b ↔ Taken (j + 1) st (node l r) b ∧ st + 2 ^ j ≤ b.1 := by
  constructor
  · intro h
    have hb := blocks_bounds h
    exact ⟨taken_node_iff.2 (Or.inr h), hb.1⟩
  · rintro ⟨h, hle⟩
    rcases taken_node_iff.1 h with h | h
    · have hb := blocks_bounds h
      simp only at hb
      omega
    · exact h

/-- Coalesced trees over one interval with the same taken blocks are equal. -/
theorem eq_of_taken_eq :
    ∀ {d d' : DTree} {j : Nat} {st : Int}, d.Fits j → d'.Fits j → d.Coalesced → d'.Coalesced →
      (∀ b, Taken j st d b ↔ Taken j st d' b) → d = d'
  | leaf true, d', j, st, _, hfit', _, hco', htaken => by
      have hno : ∀ b, ¬ Taken j st d' b := fun b hb => by
        simpa [Taken, blocks] using (htaken b).2 hb
      exact (eq_leaf_of_no_taken hfit' hco' hno).symm
  | leaf false, leaf true, j, st, _, _, _, _, htaken => by
      have h : Taken j st (leaf true) (st, 2 ^ j) := (htaken _).1 (by simp [Taken, blocks])
      simp [Taken, blocks] at h
  | leaf false, leaf false, _, _, _, _, _, _, _ => rfl
  | leaf false, node l' r', j, st, _, _, _, _, htaken => by
      have h : Taken j st (node l' r') (st, 2 ^ j) := (htaken _).1 (by simp [Taken, blocks])
      exact absurd h not_taken_whole
  | node l r, leaf true, j, st, hfit, _, hco, _, htaken => by
      have hno : ∀ b, ¬ Taken j st (node l r) b := fun b hb => by
        simpa [Taken, blocks] using (htaken b).1 hb
      exact eq_leaf_of_no_taken hfit hco hno
  | node l r, leaf false, j, st, _, _, _, _, htaken => by
      have h : Taken j st (node l r) (st, 2 ^ j) := (htaken _).2 (by simp [Taken, blocks])
      exact absurd h not_taken_whole
  | node l r, node l' r', 0, _, hfit, _, _, _, _ => by
      exact absurd hfit (by simp [Fits])
  | node l r, node l' r', j + 1, st, hfit, hfit', hco, hco', htaken => by
      -- The middle of the interval separates the taken blocks of the halves.
      have htl : ∀ b, Taken j st l b ↔ Taken j st l' b := by
        intro b
        rw [taken_left_iff (l := l) (r := r), taken_left_iff (l := l') (r := r'), htaken b]
      have htr : ∀ b, Taken j (st + 2 ^ j) r b ↔ Taken j (st + 2 ^ j) r' b := by
        intro b
        rw [taken_right_iff (l := l) (r := r), taken_right_iff (l := l') (r := r'), htaken b]
      have hl : l = l' := eq_of_taken_eq hfit.1 hfit'.1 hco.2.1 hco'.2.1 htl
      have hr : r = r' := eq_of_taken_eq hfit.2 hfit'.2 hco.2.2 hco'.2.2 htr
      rw [hl, hr]

/-- In a coalesced tree, an aligned range that meets no taken block lies inside one free block. -/
theorem free_block_of_clear :
    ∀ {d : DTree} {J j : Nat} {st k : Int}, d.Fits J → d.Coalesced → 0 ≤ k →
      (k + 1) * 2 ^ j ≤ 2 ^ J →
      (∀ b, Taken J st d b → b.1 + b.2 ≤ st + k * 2 ^ j ∨ st + (k + 1) * 2 ^ j ≤ b.1) →
      ∃ b, (b, true) ∈ d.blocks J st ∧ b.1 ≤ st + k * 2 ^ j ∧ st + (k + 1) * 2 ^ j ≤ b.1 + b.2
  | leaf true, J, j, st, k, _, _, hk, hend, _ => by
      have hlo : 0 ≤ k * 2 ^ j := by positivity
      exact ⟨(st, 2 ^ J), by simp [blocks], by simpa using hlo, by simpa using hend⟩
  | leaf false, J, j, st, k, _, _, hk, hend, hclear => by
      -- The whole interval is taken and the range is not empty.
      have hlo : 0 ≤ k * 2 ^ j := by positivity
      have hpos : (0 : Int) < 2 ^ j := by positivity
      have hhi : (k + 1) * 2 ^ j = k * 2 ^ j + 2 ^ j := by ring
      have hmeet := hclear (st, 2 ^ J) (by simp [Taken, blocks])
      simp only at hmeet
      omega
  | node l r, 0, _, _, _, hfit, _, _, _, _ => by
      exact absurd hfit (by simp [Fits])
  | node l r, J + 1, j, st, k, hfit, hco, hk, hend, hclear => by
      have hlo : 0 ≤ k * 2 ^ j := by positivity
      have hpos : (0 : Int) < 2 ^ j := by positivity
      have hhi : (k + 1) * 2 ^ j = k * 2 ^ j + 2 ^ j := by ring
      have hpow : (2 : Int) ^ (J + 1) = 2 ^ J + 2 ^ J := by rw [pow_succ]; ring
      by_cases hjJ : j ≤ J
      · -- A range no longer than a half lies in one of the halves.
        obtain ⟨m, hm⟩ : ∃ m : Int, (2 : Int) ^ J = m * 2 ^ j :=
          ⟨2 ^ (J - j), by rw [← pow_add]; congr 1; omega⟩
        by_cases hkm : k < m
        · have hendl : (k + 1) * 2 ^ j ≤ 2 ^ J := by
            rw [hm]
            exact mul_le_mul_of_nonneg_right (by omega) hpos.le
          rcases free_block_of_clear hfit.1 hco.2.1 hk hendl
              (fun b hb => hclear b (taken_node_iff.2 (Or.inl hb))) with ⟨b, hb, hin⟩
          exact ⟨b, List.mem_append_left _ hb, hin⟩
        · have hmk : m * 2 ^ j ≤ k * 2 ^ j := mul_le_mul_of_nonneg_right (by omega) hpos.le
          have hshift : (k - m) * 2 ^ j = k * 2 ^ j - 2 ^ J := by rw [hm]; ring
          have hshift' : (k - m + 1) * 2 ^ j = k * 2 ^ j - 2 ^ J + 2 ^ j := by rw [hm]; ring
          have hendr : (k - m + 1) * 2 ^ j ≤ 2 ^ J := by omega
          have hclearr : ∀ b, Taken J (st + 2 ^ J) r b →
              b.1 + b.2 ≤ st + 2 ^ J + (k - m) * 2 ^ j ∨
                st + 2 ^ J + (k - m + 1) * 2 ^ j ≤ b.1 := by
            intro b hb
            have hb' := hclear b (taken_node_iff.2 (Or.inr hb))
            omega
          rcases free_block_of_clear hfit.2 hco.2.2 (by omega) hendr hclearr with ⟨b, hb, hin⟩
          exact ⟨b, List.mem_append_right _ hb, by omega, by omega⟩
      · -- A longer range is the whole interval, so nothing at all is taken.
        have hlong : (2 : Int) ^ (J + 1) ≤ 2 ^ j := pow_le_pow_right₀ (by decide) (by omega)
        have hno : ∀ b, ¬ Taken (J + 1) st (node l r) b := by
          intro b hb
          have hbounds := blocks_bounds hb
          have hmeet := hclear b hb
          simp only at hbounds
          omega
        exact absurd (eq_leaf_of_no_taken hfit hco hno) (by simp)

end DTree

end Lib
end OsLab
