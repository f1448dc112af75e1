import Mathlib.Algebra.Order.BigOperators.Group.List
import Mathlib.Algebra.BigOperators.Group.List.Basic
import Mathlib.Tactic.Abel

/-!
# BackToBack — the total waiting time of jobs run one after the other

A list of jobs is given by their lengths, in the order in which they run.  A job waits until all
jobs in front of it are over, so every pair of jobs contributes the length of the earlier one to
the total.  The shorter one is the least that a pair can contribute, and the sum of these least
contributions does not depend on the order: it is attained by running the jobs sorted by length.
-/

namespace OsLab
namespace Lib

universe u

variable {α : Type u}

section Sums

variable [AddCommMonoid α]

/-- The instants at which the jobs start, the first of them at `now`. -/
def startTimes (now : α) : List α → List α
  | [] => []
  | a :: l => now :: startTimes (now + a) l

def totalWait (l : List α) : α :=
  (startTimes 0 l).sum

/-- The sum of `f a b` over all pairs with `a` in front of `b`. -/
def pairSum (f : α → α → α) : List α → α
  | [] => 0
  | a :: l => (l.map (f a)).sum + pairSum f l

theorem startTimes_concat (now a : α) (l : List α) :
    startTimes now (l ++ [a]) = startTimes now l ++ [now + l.sum] := by
  induction l generalizing now with
  | nil => simp [startTimes]
  | cons b l ih => simp [startTimes, ih, add_assoc]

theorem sum_startTimes (now : α) (l : List α) :
    (startTimes now l).sum = l.length • now + pairSum (fun a _ => a) l := by
  induction l generalizing now with
  | nil => simp [startTimes, pairSum]
  | cons a l ih =>
      calc
        (startTimes now (a :: l)).sum
            = now + (l.length • (now + a) + pairSum (fun a _ => a) l) := by
              rw [startTimes, List.sum_cons, ih]
        _ = (now + l.length • now) + (l.length • a + pairSum (fun a _ => a) l) := by
              rw [nsmul_add]
              abel
        _ = (a :: l).length • now + pairSum (fun a _ => a) (a :: l) := by
              rw [List.length_cons, succ_nsmul', pairSum, List.map_const', List.sum_replicate]

theorem totalWait_eq_pairSum (l : List α) : totalWait l = pairSum (fun a _ => a) l := by
  rw [totalWait, sum_startTimes, nsmul_zero, zero_add]

/-- A symmetric sum over pairs does not depend on the order. -/
theorem pairSum_perm {f : α → α → α} (hcomm : ∀ a b, f a b = f b a) {l l' : List α}
    (hperm : l.Perm l') : pairSum f l = pairSum f l' := by
  induction hperm with
  | nil => rfl
  | cons a hperm ih => rw [pairSum, pairSum, ih, (hperm.map (f a)).sum_eq]
  | swap a b l =>
      simp only [pairSum, List.map_cons, List.sum_cons, hcomm b a]
      abel
  | trans _ _ ih₁ ih₂ => exact ih₁.trans ih₂

theorem pairSum_congr {f g : α → α → α} {l : List α}
    (hsame : l.Pairwise (fun a b => f a b = g a b)) : pairSum f l = pairSum g l := by
  induction hsame with
  | nil => rfl
  | cons ha _ ih => rw [pairSum, pairSum, ih, List.map_congr_left ha]

end Sums

section Order

variable [AddCommMonoid α] [LinearOrder α] [IsOrderedAddMonoid α]

theorem pairSum_le {f g : α → α → α} (hle : ∀ a b, f a b ≤ g a b) (l : List α) :
    pairSum f l ≤ pairSum g l := by
  induction l with
  | nil => exact le_refl _
  | cons a l ih => exact add_le_add (List.sum_le_sum fun b _ => hle a b) ih

/-- Running the jobs shortest first gives the least total waiting time. -/
theorem totalWait_le_of_sorted {l order : List α} (hsorted : l.Pairwise (· ≤ ·))
    (hperm : order.Perm l) : totalWait l ≤ totalWait order := by
  have hmin : l.Pairwise fun a b => a = min a b := hsorted.imp fun hab => (min_eq_left hab).symm
  calc
    totalWait l = pairSum (fun a _ => a) l := totalWait_eq_pairSum l
    _ = pairSum min l := pairSum_congr hmin
    _ = pairSum min order := (pairSum_perm min_comm hperm).symm
    _ ≤ pairSum (fun a _ => a) order := pairSum_le min_le_left order
    _ = totalWait order := (totalWait_eq_pairSum order).symm

end Order

end Lib
end OsLab
