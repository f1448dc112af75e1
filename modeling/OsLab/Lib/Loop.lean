import Mathlib.Order.Basic

/-!
# Loop — imperative loops with fuel

A C loop is embedded as a step function on the loop's variables.  One turn of the loop either

* crashes (`none`, for example a `NULL` dereference),
* goes round again with new values of the variables (`some (.inl s)`), or
* leaves the loop with a result (`some (.inr r)`).

`loop step fuel s` runs at most `fuel` turns.  Running out of fuel is the same failure as a crash,
so a theorem that a loop returns `some r` says that the loop terminates and never crashes.
-/

namespace OsLab
namespace Lib

universe u v

variable {σ : Type u} {ρ : Type v}

/-- Run the loop body `step` for at most `fuel` turns. -/
def loop (step : σ → Option (σ ⊕ ρ)) : Nat → σ → Option ρ
  | 0, _ => none
  | fuel + 1, s =>
      match step s with
      | none => none
      | some (.inl s') => loop step fuel s'
      | some (.inr r) => some r

section Equations

variable {step : σ → Option (σ ⊕ ρ)} {s s' : σ} {r : ρ}

theorem loop_again (fuel : Nat) (h : step s = some (.inl s')) :
    loop step (fuel + 1) s = loop step fuel s' := by
  simp [loop, h]

theorem loop_exit (fuel : Nat) (h : step s = some (.inr r)) :
    loop step (fuel + 1) s = some r := by
  simp [loop, h]

end Equations

/-- Total correctness of a loop: an invariant that every turn keeps, a variant that every turn
decreases, and a postcondition established by every exit. -/
theorem loop_total {step : σ → Option (σ ⊕ ρ)} (Inv : σ → Prop) (variant : σ → Nat)
    (Post : ρ → Prop)
    (hturn : ∀ s, Inv s →
      (∃ s', step s = some (.inl s') ∧ Inv s' ∧ variant s' < variant s) ∨
        (∃ r, step s = some (.inr r) ∧ Post r)) :
    ∀ (fuel : Nat) (s : σ), Inv s → variant s < fuel →
      ∃ r, loop step fuel s = some r ∧ Post r := by
  intro fuel
  induction fuel with
  | zero =>
      intro s _ hlt
      exact absurd hlt (Nat.not_lt_zero _)
  | succ fuel ih =>
      intro s hs hlt
      rcases hturn s hs with ⟨s', hstep, hs', hdec⟩ | ⟨r, hstep, hr⟩
      · -- The variant bounds the turns that are left.
        have hfuel : variant s' < fuel := Nat.lt_of_lt_of_le hdec (Nat.lt_succ_iff.1 hlt)
        rcases ih s' hs' hfuel with ⟨r, hloop, hr⟩
        exact ⟨r, by rw [loop_again fuel hstep]; exact hloop, hr⟩
      · exact ⟨r, loop_exit fuel hstep, hr⟩

/-- Partial correctness of a loop: whatever result it returns satisfies the postcondition. -/
theorem loop_partial {step : σ → Option (σ ⊕ ρ)} (Inv : σ → Prop) (Post : ρ → Prop)
    (hagain : ∀ s s', Inv s → step s = some (.inl s') → Inv s')
    (hexit : ∀ s r, Inv s → step s = some (.inr r) → Post r) :
    ∀ (fuel : Nat) (s : σ) (r : ρ), Inv s → loop step fuel s = some r → Post r := by
  intro fuel
  induction fuel with
  | zero =>
      intro s r _ h
      simp [loop] at h
  | succ fuel ih =>
      intro s r hs h
      cases hstep : step s with
      | none =>
          simp [loop, hstep] at h
      | some out =>
          cases out with
          | inl s' =>
              rw [loop_again fuel hstep] at h
              exact ih s' r (hagain s s' hs hstep) h
          | inr r' =>
              rw [loop_exit fuel hstep] at h
              cases h
              exact hexit s r hs hstep

/-- Two loops in lockstep: related variables go round again, or leave with related results,
together. -/
theorem loop_lockstep {σ' ρ' : Type*} {step : σ → Option (σ ⊕ ρ)}
    {step' : σ' → Option (σ' ⊕ ρ')} (R : σ → σ' → Prop) (Q : ρ → ρ' → Prop)
    (hturn : ∀ a b, R a b →
      (∃ a' b', step a = some (.inl a') ∧ step' b = some (.inl b') ∧ R a' b') ∨
        (∃ r r', step a = some (.inr r) ∧ step' b = some (.inr r') ∧ Q r r')) :
    ∀ (fuel : Nat) (a : σ) (b : σ') (r : ρ), R a b → loop step fuel a = some r →
      ∃ r', loop step' fuel b = some r' ∧ Q r r' := by
  intro fuel
  induction fuel with
  | zero =>
      intro a b r _ h
      simp [loop] at h
  | succ fuel ih =>
      intro a b r hab h
      rcases hturn a b hab with ⟨a', b', ha, hb, hab'⟩ | ⟨q, q', ha, hb, hqq⟩
      · rw [loop_again fuel ha] at h
        rw [loop_again fuel hb]
        exact ih a' b' r hab' h
      · rw [loop_exit fuel ha] at h
        cases h
        exact ⟨q', loop_exit fuel hb, hqq⟩

/-- A loop that goes round again whatever its variables are does not end. -/
theorem loop_endless {step : σ → Option (σ ⊕ ρ)} (Inv : σ → Prop)
    (hagain : ∀ s, Inv s → ∃ s', step s = some (.inl s') ∧ Inv s') :
    ∀ (fuel : Nat) (s : σ), Inv s → loop step fuel s = none := by
  intro fuel
  induction fuel with
  | zero =>
      intro s _
      rfl
  | succ fuel ih =>
      intro s hs
      rcases hagain s hs with ⟨s', hstep, hs'⟩
      rw [loop_again fuel hstep]
      exact ih s' hs'

/-- A loop on the images of the variables of another one. -/
theorem loop_map {σ' ρ' : Type*} {step : σ → Option (σ ⊕ ρ)} {step' : σ' → Option (σ' ⊕ ρ')}
    (f : σ → σ') (g : ρ → ρ') (Inv : σ → Prop)
    (hkeep : ∀ s s', Inv s → step s = some (.inl s') → Inv s')
    (himage : ∀ s, Inv s → step' (f s) = (step s).map (Sum.map f g)) :
    ∀ (fuel : Nat) (s : σ), Inv s → loop step' fuel (f s) = (loop step fuel s).map g := by
  intro fuel
  induction fuel with
  | zero =>
      intro s _
      rfl
  | succ fuel ih =>
      intro s hs
      have hturn := himage s hs
      cases hstep : step s with
      | none =>
          rw [hstep] at hturn
          simp only [loop, hstep, hturn, Option.map_none]
      | some out =>
          rw [hstep] at hturn
          cases out with
          | inl s' =>
              rw [loop_again fuel hstep, loop_again fuel hturn]
              exact ih s' (hkeep s s' hs hstep)
          | inr r =>
              rw [loop_exit fuel hstep, loop_exit fuel hturn]
              rfl

/-! ## Loops with as many turns as they need -/

/-- The loop leaves with `r`, after whatever number of turns. -/
def LoopsTo (step : σ → Option (σ ⊕ ρ)) (s : σ) (r : ρ) : Prop :=
  ∃ fuel, loop step fuel s = some r

section LoopsTo

variable {step : σ → Option (σ ⊕ ρ)} {s : σ} {r r' : ρ}

/-- A loop whose first turn leaves it has no other result. -/
theorem LoopsTo.eq_of_exit (h : LoopsTo step s r') (hexit : step s = some (.inr r)) : r' = r := by
  rcases h with ⟨fuel, hloop⟩
  cases fuel with
  | zero => simp [loop] at hloop
  | succ fuel =>
      rw [loop_exit fuel hexit] at hloop
      exact (Option.some.inj hloop).symm

/-- The invariant rule for `LoopsTo`. -/
theorem LoopsTo.invariant (h : LoopsTo step s r) (Inv : σ → Prop) (Post : ρ → Prop)
    (hagain : ∀ s s', Inv s → step s = some (.inl s') → Inv s')
    (hexit : ∀ s r, Inv s → step s = some (.inr r) → Post r) (hs : Inv s) : Post r := by
  rcases h with ⟨fuel, hloop⟩
  exact loop_partial Inv Post hagain hexit fuel s r hs hloop

end LoopsTo

end Lib
end OsLab
