import Mathlib.Data.List.Basic

/-!
# Draws — loops that draw until something fits

A loop of the form "draw a value, stop if it is accepted" on a list of draws.  It answers the first
accepted draw and the draws that are left, or `none` if the list ends before.
-/

namespace OsLab
namespace Lib

universe u

variable {α : Type u} {accept : α → Bool}

def drawUntil (accept : α → Bool) : List α → Option (α × List α)
  | [] => none
  | d :: ds => if accept d then some (d, ds) else drawUntil accept ds

theorem drawUntil_accepts :
    ∀ {ds : List α} {d : α} {rest : List α}, drawUntil accept ds = some (d, rest) → accept d = true
  | d₁ :: ds, d, rest, h => by
      unfold drawUntil at h
      split at h
      · rename_i haccept
        cases h
        exact haccept
      · exact drawUntil_accepts h

/-- The draw that is taken, and those that are left, come from the list. -/
theorem drawUntil_mem :
    ∀ {ds : List α} {d : α} {rest : List α}, drawUntil accept ds = some (d, rest) →
      d ∈ ds ∧ ∀ x ∈ rest, x ∈ ds
  | d₁ :: ds, d, rest, h => by
      unfold drawUntil at h
      split at h
      · cases h
        exact ⟨List.mem_cons_self .., fun x hx => List.mem_cons_of_mem _ hx⟩
      · rcases drawUntil_mem h with ⟨hd, hrest⟩
        exact ⟨List.mem_cons_of_mem _ hd, fun x hx => List.mem_cons_of_mem _ (hrest x hx)⟩

/-- The loop ends exactly when a draw is accepted. -/
theorem drawUntil_isSome_iff : ∀ ds : List α,
    (drawUntil accept ds).isSome = true ↔ ∃ d ∈ ds, accept d = true
  | [] => by simp [drawUntil]
  | d :: ds => by
      unfold drawUntil
      by_cases h : accept d = true
      · simp [h]
      · rw [if_neg h, drawUntil_isSome_iff ds]
        simp [h]

end Lib
end OsLab
