import Mathlib

/-!
# Packing — filling a buffer with records

`pack w size used l` takes records from the front of `l` as long as, with what is used already, they stay
below `size`.  The first record that does not is where the next buffer begins.
-/

namespace OsLab
namespace Lib

universe u

variable {α : Type u} {w : α → Nat} {size used : Nat}

/-- The records that fit and those that are left. -/
def pack (w : α → Nat) (size : Nat) : Nat → List α → List α × List α
  | _, [] => ([], [])
  | used, x :: xs =>
      if size ≤ used + w x then ([], x :: xs)
      else
        let rest := pack w size (used + w x) xs
        (x :: rest.1, rest.2)

theorem pack_cons_of_lt {x : α} {xs : List α} (h : used + w x < size) :
    pack w size used (x :: xs) =
      (x :: (pack w size (used + w x) xs).1, (pack w size (used + w x) xs).2) := by
  rw [pack, if_neg (Nat.not_le.2 h)]

theorem pack_cons_of_le {x : α} {xs : List α} (h : size ≤ used + w x) :
    pack w size used (x :: xs) = ([], x :: xs) := by
  rw [pack, if_pos h]

/-- Nothing is lost and nothing is taken twice. -/
theorem pack_append : ∀ (l : List α) (used : Nat),
    (pack w size used l).1 ++ (pack w size used l).2 = l
  | [], _ => rfl
  | x :: xs, used => by
      by_cases h : used + w x < size
      · rw [pack_cons_of_lt h]
        exact congrArg (x :: ·) (pack_append xs (used + w x))
      · rw [pack_cons_of_le (Nat.not_lt.1 h)]
        rfl

/-- Packing in two goes, where the first list fits. -/
theorem pack_append_of_fits {l' : List α} : ∀ {l : List α} {used : Nat}, (pack w size used l).2 = [] →
    pack w size used (l ++ l') =
      (l ++ (pack w size (used + (l.map w).sum) l').1, (pack w size (used + (l.map w).sum) l').2)
  | [], used, _ => by simp
  | x :: xs, used, h => by
      by_cases hx : used + w x < size
      · rw [pack_cons_of_lt hx] at h
        rw [List.cons_append, pack_cons_of_lt hx, pack_append_of_fits h]
        simp [Nat.add_assoc]
      · rw [pack_cons_of_le (Nat.not_lt.1 hx)] at h
        simp at h

/-- Packing in two goes, where the first list does not fit. -/
theorem pack_append_of_full {l' : List α} : ∀ {l : List α} {used : Nat}, (pack w size used l).2 ≠ [] →
    pack w size used (l ++ l') = ((pack w size used l).1, (pack w size used l).2 ++ l')
  | [], used, h => by simp [pack] at h
  | x :: xs, used, h => by
      by_cases hx : used + w x < size
      · rw [pack_cons_of_lt hx] at h
        rw [List.cons_append, pack_cons_of_lt hx, pack_append_of_full h, pack_cons_of_lt hx]
      · rw [List.cons_append, pack_cons_of_le (Nat.not_lt.1 hx), pack_cons_of_le (Nat.not_lt.1 hx)]
        rfl

/-- What is taken stays below the size. -/
theorem pack_sum_lt : ∀ {l : List α} {used : Nat}, (pack w size used l).1 ≠ [] →
    used + ((pack w size used l).1.map w).sum < size
  | [], used, h => by simp [pack] at h
  | x :: xs, used, h => by
      by_cases hx : used + w x < size
      · rw [pack_cons_of_lt hx, List.map_cons, List.sum_cons, ← Nat.add_assoc]
        by_cases hxs : (pack w size (used + w x) xs).1 = []
        · rw [hxs]
          exact hx
        · exact pack_sum_lt hxs
      · rw [pack_cons_of_le (Nat.not_lt.1 hx)] at h
        exact absurd rfl h

/-- A buffer with room for every record takes one. -/
theorem pack_ne_nil {l : List α} (hl : l ≠ []) (h : ∀ x ∈ l, w x < size) :
    (pack w size 0 l).1 ≠ [] := by
  cases l with
  | nil => exact absurd rfl hl
  | cons x xs =>
      have hx : 0 + w x < size := by
        rw [Nat.zero_add]
        exact h x (List.mem_cons_self ..)
      rw [pack_cons_of_lt hx]
      simp

/-! ## Pieces laid end to end -/

/-- The pieces are copied to `off`, `off + len`, and so on: each begins where the one before ends. -/
def EndToEnd (w : α → Nat) : Nat → List (Nat × List α) → Prop
  | _, [] => True
  | off, (at', piece) :: pieces => at' = off ∧ EndToEnd w (off + (piece.map w).sum) pieces

theorem endToEnd_concat (off : Nat) (piece : List α) :
    ∀ {start : Nat} {pieces : List (Nat × List α)}, EndToEnd w start pieces →
      off = start + ((pieces.flatMap Prod.snd).map w).sum →
      EndToEnd w start (pieces ++ [(off, piece)])
  | start, [], _, hoff => by
      refine ⟨?_, trivial⟩
      simpa using hoff
  | start, (at', piece') :: pieces, h, hoff => by
      refine ⟨h.1, endToEnd_concat off piece h.2 ?_⟩
      rw [hoff]
      simp [Nat.add_assoc]

end Lib
end OsLab
