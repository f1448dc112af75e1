import Mathlib.Data.List.Basic

/-!
# SortedInsert — insertion at the lower bound of a sorted vector

`lowerInsert lt a l` is the C++ idiom `l.insert(lower_bound(begin, end, a, lt), a)`.  On a list
sorted by `lt`, `lower_bound` is the first position whose element is not before `a`.
-/

namespace OsLab
namespace Lib

universe u

variable {α : Type u} (lt : α → α → Bool)

def lowerInsert (a : α) (l : List α) : List α :=
  l.takeWhile (fun b => lt b a) ++ a :: l.dropWhile (fun b => lt b a)

theorem lowerInsert_perm (a : α) (l : List α) : (lowerInsert lt a l).Perm (a :: l) := by
  have hsplit : l.takeWhile (fun b => lt b a) ++ l.dropWhile (fun b => lt b a) = l :=
    List.takeWhile_append_dropWhile
  have hmid : (lowerInsert lt a l).Perm
      (a :: (l.takeWhile (fun b => lt b a) ++ l.dropWhile (fun b => lt b a))) :=
    List.perm_middle
  simpa [hsplit] using hmid

/-- Only the comparisons with the inserted element matter. -/
theorem lowerInsert_congr {lt' : α → α → Bool} {a : α} :
    ∀ {l : List α}, (∀ b ∈ l, lt b a = lt' b a) → lowerInsert lt a l = lowerInsert lt' a l
  | [], _ => rfl
  | b :: l, hsame => by
      have hb := hsame b (by simp)
      have hl := lowerInsert_congr fun c hc => hsame c (List.mem_cons_of_mem b hc)
      simp only [lowerInsert] at hl ⊢
      simp only [List.takeWhile_cons, List.dropWhile_cons, hb]
      split_ifs
      · simp [hl]
      · rfl

/-- Inserting an element comparable with all others keeps a sorted list sorted. -/
theorem lowerInsert_pairwise
    (htrans : ∀ a b c, lt a b = true → lt b c = true → lt a c = true) {a : α} :
    ∀ {l : List α}, l.Pairwise (fun b c => lt b c = true) →
      (∀ b ∈ l, lt b a = true ∨ lt a b = true) →
        (lowerInsert lt a l).Pairwise (fun b c => lt b c = true)
  | [], _, _ => by simp [lowerInsert]
  | b :: l, hsorted, hcomp => by
      have hb := (List.pairwise_cons.1 hsorted).1
      have hl := (List.pairwise_cons.1 hsorted).2
      by_cases hlt : lt b a = true
      · -- `b` stays in front; everything behind it is `a` or an old element.
        have hrec : (lowerInsert lt a l).Pairwise (fun b c => lt b c = true) :=
          lowerInsert_pairwise htrans hl fun c hc => hcomp c (List.mem_cons_of_mem _ hc)
        have heq : lowerInsert lt a (b :: l) = b :: lowerInsert lt a l := by
          simp [lowerInsert, hlt]
        rw [heq]
        refine List.pairwise_cons.2 ⟨?_, hrec⟩
        intro c hc
        rcases List.mem_cons.1 ((lowerInsert_perm lt a l).mem_iff.1 hc) with hc | hc
        · exact hc ▸ hlt
        · exact hb c hc
      · -- The scan stops at `b`, and `a` comes before the whole list.
        have hab : lt a b = true := (hcomp b (by simp)).resolve_left hlt
        have heq : lowerInsert lt a (b :: l) = a :: b :: l := by
          simp [lowerInsert, hlt]
        rw [heq]
        refine List.pairwise_cons.2 ⟨?_, hsorted⟩
        intro c hc
        rcases List.mem_cons.1 hc with hc | hc
        · exact hc ▸ hab
        · exact htrans a b c hab (hb c hc)

end Lib
end OsLab
