import Mathlib.Order.Basic

/-!
# Runs — properties of whole runs and conditions on their steps

A system answers an event in a state by `step s e`, the next state, or by `none` when it goes no
further.  `Along step P s es` says that `P` holds in every state on the way, `Guarded step C s es`
that every event meets the condition `C` in the state in which its turn comes.

`along_iff_guarded` is the rule that trades one for the other: it takes an invariant that steps with
the condition keep and that implies the property, and the fact that a step without the condition
breaks the property at once.
-/

namespace OsLab
namespace Lib

universe u v

variable {σ : Type u} {ε : Type v}

/-- `P` holds in every state that the events reach, the first one included. -/
def Along (step : σ → ε → Option σ) (P : σ → Prop) (s : σ) : List ε → Prop
  | [] => P s
  | e :: es => P s ∧ ∀ s', step s e = some s' → Along step P s' es

/-- Every event meets the condition `C` when its turn comes. -/
def Guarded (step : σ → ε → Option σ) (C : σ → ε → Prop) (s : σ) : List ε → Prop
  | [] => True
  | e :: es => C s e ∧ ∀ s', step s e = some s' → Guarded step C s' es

section Rules

variable {step : σ → ε → Option σ} {P Inv : σ → Prop} {C : σ → ε → Prop}

theorem foldlM_cons_eq_some {s s' : σ} {e : ε} {es : List ε} :
    (e :: es).foldlM step s = some s' ↔ ∃ s₁, step s e = some s₁ ∧ es.foldlM step s₁ = some s' := by
  rw [List.foldlM_cons]
  exact Option.bind_eq_some_iff

/-- What every step keeps, a run keeps. -/
theorem foldlM_keeps (hstep : ∀ s e s', P s → step s e = some s' → P s') :
    ∀ {es : List ε} {s s' : σ}, es.foldlM step s = some s' → P s → P s'
  | [], s, s', hrun, hs => by
      cases hrun
      exact hs
  | e :: es, s, s', hrun, hs => by
      rcases foldlM_cons_eq_some.1 hrun with ⟨s₁, hfirst, hrest⟩
      exact foldlM_keeps hstep hrest (hstep s e s₁ hs hfirst)

/-- One more event, in a run that is told by the events of a kind. -/
theorem foldlM_filter_concat (keep : ε → Bool) (es : List ε) (e : ε) (s : σ) :
    ((es ++ [e]).filter keep).foldlM step s =
      if keep e = true then ((es.filter keep).foldlM step s).bind fun s' => step s' e
      else (es.filter keep).foldlM step s := by
  by_cases h : keep e = true
  · rw [List.filter_append, List.foldlM_append, if_pos h]
    simp [h]
  · rw [List.filter_append, if_neg h]
    simp [h]

theorem Along.head {s : σ} {es : List ε} (h : Along step P s es) : P s := by
  cases es with
  | nil => exact h
  | cons e es => exact h.1

/-- The last state of a run is on the way. -/
theorem Along.last :
    ∀ {es : List ε} {s s' : σ}, Along step P s es → es.foldlM step s = some s' → P s'
  | [], s, s', h, hrun => by
      cases hrun
      exact h
  | e :: es, s, s', h, hrun => by
      rcases foldlM_cons_eq_some.1 hrun with ⟨s₁, hstep, hrest⟩
      exact (h.2 s₁ hstep).last hrest

/-- One more event in front. -/
theorem Guarded.cons {s : σ} (s' : σ) {e : ε} {es : List ε} (hstep : step s e = some s') (hcond : C s e)
    (hrest : Guarded step C s' es) : Guarded step C s (e :: es) := by
  refine ⟨hcond, ?_⟩
  intro s₁ hstep₁
  rw [hstep] at hstep₁
  cases hstep₁
  exact hrest

/-- One more event, in the state that the others lead to. -/
theorem guarded_concat {e : ε} :
    ∀ {es : List ε} {s : σ}, Guarded step C s (es ++ [e]) ↔
      Guarded step C s es ∧ ∀ s', es.foldlM step s = some s' → C s' e
  | [], s => by
      constructor
      · rintro ⟨hcond, _⟩
        refine ⟨trivial, ?_⟩
        intro s' hrun
        cases hrun
        exact hcond
      · rintro ⟨_, hcond⟩
        exact ⟨hcond s rfl, fun _ _ => trivial⟩
  | e₁ :: es, s => by
      constructor
      · rintro ⟨hcond, hrest⟩
        refine ⟨⟨hcond, fun s₁ hstep => (guarded_concat.1 (hrest s₁ hstep)).1⟩, ?_⟩
        intro s' hrun
        rcases foldlM_cons_eq_some.1 hrun with ⟨s₁, hstep, hafter⟩
        exact (guarded_concat.1 (hrest s₁ hstep)).2 s' hafter
      · rintro ⟨⟨hcond, hrest⟩, hlast⟩
        refine ⟨hcond, ?_⟩
        intro s₁ hstep
        refine guarded_concat.2 ⟨hrest s₁ hstep, ?_⟩
        intro s' hafter
        exact hlast s' (foldlM_cons_eq_some.2 ⟨s₁, hstep, hafter⟩)

/-- A condition that implies another one wherever the invariant holds, and keeps the invariant. -/
theorem Guarded.imp {D : σ → ε → Prop}
    (hkeep : ∀ s e s', Inv s → C s e → step s e = some s' → Inv s')
    (himp : ∀ s e, Inv s → C s e → D s e) :
    ∀ {es : List ε} {s : σ}, Inv s → Guarded step C s es → Guarded step D s es
  | [], _, _, _ => trivial
  | e :: es, s, hs, h => by
      refine ⟨himp s e hs h.1, ?_⟩
      intro s' hstep
      exact Guarded.imp hkeep himp (hkeep s e s' hs h.1 hstep) (h.2 s' hstep)

theorem guarded_congr {D : σ → ε → Prop} (h : ∀ s e, C s e ↔ D s e) (s : σ) (es : List ε) :
    Guarded step C s es ↔ Guarded step D s es := by
  have heq : C = D := by
    funext s e
    exact propext (h s e)
  rw [heq]

/-- A property holds along a run exactly when every step of the run meets the condition. -/
theorem along_iff_guarded (hprop : ∀ s, Inv s → P s)
    (hkeep : ∀ s e s', Inv s → C s e → step s e = some s' → Inv s')
    (hbreak : ∀ s e, Inv s → ¬ C s e → ∃ s', step s e = some s' ∧ ¬ P s') :
    ∀ (es : List ε) (s : σ), Inv s → (Along step P s es ↔ Guarded step C s es)
  | [], s, hs => by
      constructor
      · intro _
        trivial
      · intro _
        exact hprop s hs
  | e :: es, s, hs => by
      constructor
      · rintro ⟨_, hrest⟩
        have hcond : C s e := by
          by_contra hnot
          -- The state after the step is on the way as well.
          rcases hbreak s e hs hnot with ⟨s', hstep, hbad⟩
          exact hbad (hrest s' hstep).head
        refine ⟨hcond, ?_⟩
        intro s' hstep
        have hs' := hkeep s e s' hs hcond hstep
        exact (along_iff_guarded hprop hkeep hbreak es s' hs').1 (hrest s' hstep)
      · rintro ⟨hcond, hrest⟩
        refine ⟨hprop s hs, ?_⟩
        intro s' hstep
        have hs' := hkeep s e s' hs hcond hstep
        exact (along_iff_guarded hprop hkeep hbreak es s' hs').2 (hrest s' hstep)

/-- What the steps of a guarded run keep. -/
theorem Guarded.keeps (hkeep : ∀ s e s', Inv s → C s e → step s e = some s' → Inv s') :
    ∀ {es : List ε} {s s' : σ}, Guarded step C s es → es.foldlM step s = some s' → Inv s → Inv s'
  | [], s, s', _, hrun, hs => by
      cases hrun
      exact hs
  | e :: es, s, s', h, hrun, hs => by
      rcases foldlM_cons_eq_some.1 hrun with ⟨s₁, hstep, hrest⟩
      exact Guarded.keeps hkeep (h.2 s₁ hstep) hrest (hkeep s e s₁ hs h.1 hstep)

/-- A property of the end of a run.  A step without the condition spoils it: whatever comes
afterwards, the property does not hold at an end `E`. -/
theorem end_iff_guarded {Bad E : σ → Prop} (hprop : ∀ s, Inv s → P s)
    (hkeep : ∀ s e s', Inv s → C s e → step s e = some s' → Inv s')
    (hspoil : ∀ s e s', Inv s → ¬ C s e → step s e = some s' → Bad s')
    (hbad : ∀ s e s', Bad s → step s e = some s' → Bad s') (hend : ∀ s, Bad s → E s → ¬ P s) :
    ∀ {es : List ε} {s s' : σ}, Inv s → es.foldlM step s = some s' → E s' →
      (P s' ↔ Guarded step C s es)
  | [], s, s', hs, hrun, _ => by
      cases hrun
      exact ⟨fun _ => trivial, fun _ => hprop s hs⟩
  | e :: es, s, s', hs, hrun, hE => by
      rcases foldlM_cons_eq_some.1 hrun with ⟨s₁, hstep, hrest⟩
      by_cases hcond : C s e
      · rw [end_iff_guarded hprop hkeep hspoil hbad hend (hkeep s e s₁ hs hcond hstep) hrest hE]
        constructor
        · intro hguard
          refine ⟨hcond, ?_⟩
          intro s₂ hstep'
          rw [hstep] at hstep'
          cases hstep'
          exact hguard
        · rintro ⟨-, hguard⟩
          exact hguard s₁ hstep
      · have hend' := hend s' (foldlM_keeps hbad hrest (hspoil s e s₁ hs hcond hstep)) hE
        constructor
        · intro hP
          exact absurd hP hend'
        · rintro ⟨hC, -⟩
          exact absurd hC hcond

end Rules

end Lib
end OsLab
