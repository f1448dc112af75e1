import OsLab.Buddy.Reach

/-!
# Buddy allocator — the size of a grant

`findFreeBlock` halves the block it took while the half *exceeds* the request, so a request for
exactly `2 ^ k` bytes is never cut down to `2 ^ k`: it gets that size only when the block it took
already has it.  `grant_smallest_iff` says that these requests are the only ones that are granted
more than the smallest legal block.
-/

namespace OsLab
namespace Buddy

open Lib BuddySystem

variable {s s' : BuddySystem} {L U : Nat} {y : Ptr} {pid size : Int}

/-- `g` is the smallest `2 ^ j` with `L ≤ j` that has room for `size` bytes. -/
def SmallestLegal (L : Nat) (size g : Int) : Prop :=
  ∃ j, L ≤ j ∧ g = 2 ^ j ∧ size ≤ 2 ^ j ∧ ∀ i, L ≤ i → size ≤ 2 ^ i → j ≤ i

/-- The smallest legal size depends on the request only. -/
theorem SmallestLegal.unique {g g' : Int} (h : SmallestLegal L size g)
    (h' : SmallestLegal L size g') : g = g' := by
  rcases h with ⟨j, hLj, rfl, hle, hmin⟩
  rcases h' with ⟨j', hLj', rfl, hle', hmin'⟩
  have hjj : j = j' := le_antisymm (hmin j' hLj' hle') (hmin' j hLj hle)
  rw [hjj]

theorem two_pow_lt_iff {i j : Nat} : (2 : Int) ^ i < 2 ^ j ↔ i < j :=
  pow_lt_pow_iff_right₀ (by decide)

/-- A legal block is the smallest one when its half is too small for the request or not legal. -/
theorem smallestLegal_iff {j : Nat} (hLj : L ≤ j) (hle : size ≤ 2 ^ j) :
    SmallestLegal L size (2 ^ j) ↔ (2 ^ j : Int).tdiv 2 < size ∨ (2 ^ j : Int).tdiv 2 < 2 ^ L := by
  constructor
  · rintro ⟨i, _, heq, _, hmin⟩
    have hij : j = i := Nat.pow_right_injective (le_refl 2) (by exact_mod_cast heq)
    subst hij
    by_contra hnot
    rw [not_or, not_lt, not_lt] at hnot
    rcases half_level hnot.2 with ⟨i, rfl, hLi, hdiv⟩
    have hsmaller := hmin i hLi (hdiv ▸ hnot.1)
    omega
  · intro hhalf
    refine ⟨j, hLj, rfl, hle, ?_⟩
    intro i hLi hi
    by_contra hlt
    -- A smaller legal block lies within the half.
    obtain ⟨k, rfl⟩ : ∃ k, j = k + 1 := ⟨j - 1, by omega⟩
    have hdiv : (2 ^ (k + 1) : Int).tdiv 2 = 2 ^ k := by
      rw [pow_succ]
      exact Int.mul_tdiv_cancel _ (by decide)
    have hik : (2 : Int) ^ i ≤ 2 ^ k := pow_le_pow_right₀ (by decide) (by omega)
    have hLk : (2 : Int) ^ L ≤ 2 ^ i := pow_le_pow_right₀ (by decide) hLi
    rw [hdiv] at hhalf
    omega

/-- The request asks for exactly a legal block size, and the first block of the free list that is
large enough has another size. -/
def ExactWithoutFit (s : BuddySystem) (L : Nat) (size : Int) : Prop :=
  ∃ k, L ≤ k ∧ size = 2 ^ k ∧
    ∀ x rest, takeFit s.heap size s.freeList = some (x, rest) → (s.heap x).size ≠ size

/-- The loop leaves with a block of twice the request exactly when it was asked for a legal size that
the block it took does not have. -/
theorem Grants.half_eq_iff (hg : Grants s pid size s' y) (I : Linked s L) :
    ((s'.heap y).size.tdiv 2 = size ∧ 2 ^ L ≤ (s'.heap y).size.tdiv 2) ↔
      ExactWithoutFit s L size := by
  rcases hg.spec I with ⟨x, rest, hfit, I', _, hy, _, hle, hor, hstop⟩
  rcases (I'.good y hy).sized with ⟨j, hLj, hj⟩
  rw [hj] at hle hor hstop ⊢
  rcases takeFit_some hfit with ⟨_, _, _, _, hxle, _⟩
  constructor
  · rintro ⟨heq, hmin⟩
    rcases half_level hmin with ⟨i, rfl, hLi, hdiv⟩
    refine ⟨i, hLi, by rw [← heq, hdiv], ?_⟩
    intro x' rest' hfit'
    rw [hfit] at hfit'
    cases hfit'
    have hpos : (0 : Int) < 2 ^ i := by positivity
    have hpow : (2 : Int) ^ (i + 1) = 2 ^ i + 2 ^ i := by rw [pow_succ]; ring
    -- The grant is twice the request and was cut from the block taken.
    omega
  · rintro ⟨k, hLk, rfl, hne⟩
    have hxne := hne x rest hfit
    have hkj : (2 : Int) ^ k < 2 ^ j := by omega
    obtain ⟨i, rfl⟩ : ∃ i, j = i + 1 := ⟨j - 1, by have := two_pow_lt_iff.1 hkj; omega⟩
    have hdiv : (2 ^ (i + 1) : Int).tdiv 2 = 2 ^ i := by
      rw [pow_succ]
      exact Int.mul_tdiv_cancel _ (by decide)
    have hki : k ≤ i := Nat.lt_succ_iff.1 (two_pow_lt_iff.1 hkj)
    have hLi : (2 : Int) ^ L ≤ 2 ^ i := pow_le_pow_right₀ (by decide) (hLk.trans hki)
    have hle' : (2 : Int) ^ k ≤ 2 ^ i := pow_le_pow_right₀ (by decide) hki
    rw [hdiv] at hstop ⊢
    exact ⟨by omega, hLi⟩

/-! ## When the grant is the smallest legal block -/

/-- In every reachable state, a granted block is the smallest legal one, its half too small for the
request or for the allocator, exactly when the request is not for a legal size that the first large
enough block of the free list does not have. -/
theorem grant_smallest_iff (L U : Nat) (hLU : L ≤ U) (rs : List Request) (s : BuddySystem)
    (holds : Int → Bool) (hreach : Reach L U rs s holds) (pid size : Int) (s' : BuddySystem)
    (y : Ptr) (hg : Grants s pid size s' y) :
    (SmallestLegal L size (s'.heap y).size ∧
        ((s'.heap y).size.tdiv 2 < size ∨ (s'.heap y).size.tdiv 2 < s.minBlockSize)) ↔
      ¬ ExactWithoutFit s L size := by
  have I : Linked s L := (hreach.spec hLU).1
  rcases hg.spec I with ⟨_, _, _, I', _, hy, hle, _, _, hstop⟩
  rw [← hg.half_eq_iff I, I.minBlock]
  rcases (I'.good y hy).sized with ⟨j, hLj, hj⟩
  rw [hj] at hle hstop ⊢
  rw [smallestLegal_iff hLj hle, and_self]
  omega

/-- Three bytes of an empty memory of eight. -/
theorem grant_smallest_iff_three :
    ∃ s' y, Grants (init (2 ^ 0) (2 ^ 3)) 1 3 s' y ∧
      ((SmallestLegal 0 3 (s'.heap y).size ∧
          ((s'.heap y).size.tdiv 2 < 3 ∨
            (s'.heap y).size.tdiv 2 < (init (2 ^ 0) (2 ^ 3)).minBlockSize)) ↔
        ¬ ExactWithoutFit (init (2 ^ 0) (2 ^ 3)) 0 3) := by
  have hg : ∃ s' y, Grants (init (2 ^ 0) (2 ^ 3)) 1 3 s' y :=
    ⟨_, _, _, _, _, rfl, ⟨9, rfl⟩, ⟨9, rfl⟩⟩
  rcases hg with ⟨s', y, hg⟩
  exact ⟨s', y, hg, grant_smallest_iff 0 3 (by decide) [] _ _ Reach.start 1 3 s' y hg⟩

/-- Four bytes of an empty memory of eight are granted all eight. -/
theorem exact_request_doubled :
    ∃ s' y, Reach 0 3 [] (init (2 ^ 0) (2 ^ 3)) (fun _ => false) ∧
      Grants (init (2 ^ 0) (2 ^ 3)) 1 4 s' y ∧ (s'.heap y).size = 8 ∧
      ¬ SmallestLegal 0 4 (s'.heap y).size := by
  have hg : ∃ s' y, Grants (init (2 ^ 0) (2 ^ 3)) 1 4 s' y ∧ (s'.heap y).size = 8 :=
    ⟨_, _, ⟨_, _, _, rfl, ⟨9, rfl⟩, ⟨9, rfl⟩⟩, rfl⟩
  rcases hg with ⟨s', y, hg, hsize⟩
  refine ⟨s', y, Reach.start, hg, hsize, ?_⟩
  rw [hsize]
  rintro ⟨j, _, hj, _, hmin⟩
  have hj2 := hmin 2 (by decide) (by decide)
  -- `8` is `2 ^ 3`, and `4 = 2 ^ 2` is large enough.
  have hpow : (2 : Int) ^ j ≤ 2 ^ 2 := pow_le_pow_right₀ (by decide) hj2
  omega

end Buddy
end OsLab
