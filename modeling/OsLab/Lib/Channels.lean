import Mathlib.Data.List.Infix
import Mathlib.Logic.Function.Basic
import OsLab.Lib.Runs

/-!
# Channels — a producer and a consumer over bounded queues

Two parties that run on their own and talk only through queues do not race.  Here one of them writes
and the other reads; a write waits while its queue is full, a read while its queue is empty.  Steps of
the two commute, and so the order in which they take turns does not matter: if one run comes to an
end, every run comes to the same end, after the same number of steps (`Commuting.complete`).
-/

namespace OsLab
namespace Lib

universe u v

/-! ## Commuting steps -/

section Commuting

variable {σ : Type u} {α : Type v}

/-- Steps of different parties commute when both are possible. -/
def Commuting (step : σ → α → Option σ) : Prop :=
  ∀ ⦃s s₁ s₂ : σ⦄ ⦃a b : α⦄, a ≠ b → step s a = some s₁ → step s b = some s₂ →
    ∃ s₃, step s₁ b = some s₃ ∧ step s₂ a = some s₃

/-- Nobody can take a step. -/
def Halted (step : σ → α → Option σ) (s : σ) : Prop :=
  ∀ a, step s a = none

variable {step : σ → α → Option σ}

/-- Some run leads from one state to the other. -/
def Reaches (step : σ → α → Option σ) (s t : σ) : Prop :=
  ∃ as : List α, as.foldlM step s = some t

theorem Reaches.refl (s : σ) : Reaches step s s :=
  ⟨[], rfl⟩

theorem Reaches.head {s s₁ t : σ} {a : α} (hstep : step s a = some s₁) (hrest : Reaches step s₁ t) :
    Reaches step s t := by
  rcases hrest with ⟨as, hrun⟩
  exact ⟨a :: as, foldlM_cons_eq_some.2 ⟨s₁, hstep, hrun⟩⟩

theorem Reaches.trans {s s₁ t : σ} (hfirst : Reaches step s s₁) (hrest : Reaches step s₁ t) :
    Reaches step s t := by
  rcases hfirst with ⟨as, hrun⟩
  rcases hrest with ⟨bs, hrun'⟩
  refine ⟨as ++ bs, ?_⟩
  rw [List.foldlM_append, hrun]
  exact hrun'

/-- A first step of one's own choice still leads to the end, one step sooner. -/
theorem Commuting.complete_step (hcomm : Commuting step) :
    ∀ {as : List α} {s t e : σ} {a : α}, as.foldlM step s = some e → Halted step e →
      step s a = some t → ∃ bs : List α, bs.foldlM step t = some e ∧ bs.length + 1 = as.length
  | [], s, t, e, a, hrun, hend, hstep => by
      cases hrun
      rw [hend a] at hstep
      cases hstep
  | b :: as, s, t, e, a, hrun, hend, hstep => by
      rcases foldlM_cons_eq_some.1 hrun with ⟨s₁, hfirst, hrest⟩
      by_cases hab : a = b
      · subst hab
        rw [hfirst] at hstep
        cases hstep
        exact ⟨as, hrest, rfl⟩
      · -- The step of `a` is still possible after that of `b`, and the other way round.
        rcases hcomm hab hstep hfirst with ⟨s₃, hb, ha⟩
        rcases Commuting.complete_step hcomm hrest hend ha with ⟨bs, hbs, hlen⟩
        refine ⟨b :: bs, foldlM_cons_eq_some.2 ⟨s₃, hb, hbs⟩, ?_⟩
        rw [List.length_cons, List.length_cons, hlen]

/-- Whatever was done so far, the end is still ahead, and so many steps away. -/
theorem Commuting.complete (hcomm : Commuting step) {e : σ} (hend : Halted step e) :
    ∀ {cs as : List α} {s t : σ}, as.foldlM step s = some e → cs.foldlM step s = some t →
      ∃ bs : List α, bs.foldlM step t = some e ∧ cs.length + bs.length = as.length
  | [], as, s, t, hrun, hsched => by
      cases hsched
      exact ⟨as, hrun, by simp⟩
  | c :: cs, as, s, t, hrun, hsched => by
      rcases foldlM_cons_eq_some.1 hsched with ⟨s₁, hfirst, hrest⟩
      -- The first step of the other run, and then the rest of it.
      rcases Commuting.complete_step hcomm hrun hend hfirst with ⟨as', hrun', hlen'⟩
      rcases Commuting.complete hcomm hend hrun' hrest with ⟨bs, hbs, hlen⟩
      refine ⟨bs, hbs, ?_⟩
      rw [List.length_cons]
      omega

/-- A run that cannot go on is at the end. -/
theorem Commuting.eq_of_halted (hcomm : Commuting step) {s t e : σ} {as cs : List α}
    (hrun : as.foldlM step s = some e) (hend : Halted step e) (hsched : cs.foldlM step s = some t)
    (hhalt : Halted step t) : t = e := by
  rcases Commuting.complete hcomm hend hrun hsched with ⟨bs, hbs, -⟩
  cases bs with
  | nil =>
      cases hbs
      rfl
  -- The rest of the run is empty: nobody can take a step.
  | cons b bs =>
      rcases foldlM_cons_eq_some.1 hbs with ⟨s₁, hfirst, -⟩
      rw [hhalt b] at hfirst
      cases hfirst

end Commuting

/-! ## Producer and consumer -/

inductive Party where
  | producer
  | consumer
  deriving DecidableEq, Repr

/-- What the producer does next. -/
inductive Produce (κ : Type) (Msg : κ → Type) (P : Type) where
  | halt
  | move (p : P)
  | write (k : κ) (m : Msg k) (p : P)

/-- What the consumer does next. -/
inductive Consume (κ : Type) (Msg : κ → Type) (C : Type) where
  | halt
  | move (c : C)
  | read (k : κ) (next : Msg k → C)

/-- The programs of the two, and how many messages a queue holds. -/
structure Network (κ : Type) (Msg : κ → Type) (P C : Type) where
  produce : P → Produce κ Msg P
  consume : C → Consume κ Msg C
  capacity : Nat
  pos : 0 < capacity

namespace Network

variable {κ : Type} {Msg : κ → Type} {P C : Type}

@[ext] structure State (κ : Type) (Msg : κ → Type) (P C : Type) where
  producer : P
  consumer : C
  channel : (k : κ) → List (Msg k)

variable [DecidableEq κ] (net : Network κ Msg P C)

def step (s : State κ Msg P C) : Party → Option (State κ Msg P C)
  | .producer =>
      match net.produce s.producer with
      | .halt => none
      | .move p => some { s with producer := p }
      | .write k m p =>
          if (s.channel k).length < net.capacity then
            some { s with
              producer := p
              channel := Function.update s.channel k (s.channel k ++ [m]) }
          else none
  | .consumer =>
      match net.consume s.consumer with
      | .halt => none
      | .move c => some { s with consumer := c }
      | .read k next =>
          match s.channel k with
          | [] => none
          | m :: rest =>
              some { s with
                consumer := next m
                channel := Function.update s.channel k rest }

variable {net} {s s₁ s₂ : State κ Msg P C}

theorem step_producer_move {p : P} (h : net.produce s.producer = .move p) :
    net.step s .producer = some { s with producer := p } := by
  simp only [step, h]

theorem step_producer_write {k : κ} {m : Msg k} {p : P} (h : net.produce s.producer = .write k m p)
    (hroom : (s.channel k).length < net.capacity) :
    net.step s .producer = some { s with
      producer := p
      channel := Function.update s.channel k (s.channel k ++ [m]) } := by
  simp only [step, h, if_pos hroom]

theorem step_consumer_move {c : C} (h : net.consume s.consumer = .move c) :
    net.step s .consumer = some { s with consumer := c } := by
  simp only [step, h]

theorem step_consumer_read {k : κ} {m : Msg k} {rest : List (Msg k)} {next : Msg k → C}
    (h : net.consume s.consumer = .read k next) (hqueue : s.channel k = m :: rest) :
    net.step s .consumer = some { s with
      consumer := next m
      channel := Function.update s.channel k rest } := by
  simp only [step, h, hqueue]

/-- A message that is read right after it was written leaves its queue empty. -/
theorem reaches_handover {k : κ} {m : Msg k} {p : P} {next : Msg k → C}
    (hwrite : net.produce s.producer = .write k m p)
    (hread : net.consume s.consumer = .read k next) (hempty : s.channel k = []) :
    Reaches net.step s { s with producer := p, consumer := next m } := by
  have hroom : (s.channel k).length < net.capacity := by
    rw [hempty]
    exact net.pos
  have hqueue : Function.update s.channel k (s.channel k ++ [m]) k = m :: [] := by
    rw [Function.update_self, hempty, List.nil_append]
  -- The queue is as it was before.
  have hchannel : Function.update (Function.update s.channel k (s.channel k ++ [m])) k [] =
      s.channel := by
    rw [Function.update_idem, ← hempty, Function.update_eq_self]
  have hfirst := step_producer_write hwrite hroom
  have hsecond := step_consumer_read
    (s := { s with
      producer := p
      channel := Function.update s.channel k (s.channel k ++ [m]) }) hread hqueue
  simp only [hchannel] at hsecond
  exact .head hfirst (.head hsecond (.refl _))

/-- What a step of the producer can be. -/
theorem producer_cases (h : net.step s .producer = some s₁) :
    (∃ p, net.produce s.producer = .move p ∧ s₁ = { s with producer := p }) ∨
      ∃ k m p, net.produce s.producer = .write k m p ∧ (s.channel k).length < net.capacity ∧
        s₁ = { s with
          producer := p
          channel := Function.update s.channel k (s.channel k ++ [m]) } := by
  simp only [step] at h
  cases hnext : net.produce s.producer with
  | halt => simp [hnext] at h
  | move p =>
      simp only [hnext, Option.some.injEq] at h
      exact .inl ⟨p, rfl, h.symm⟩
  | write k m p =>
      simp only [hnext] at h
      split_ifs at h with hroom
      cases h
      exact .inr ⟨k, m, p, rfl, hroom, rfl⟩

/-- What a step of the consumer can be. -/
theorem consumer_cases (h : net.step s .consumer = some s₁) :
    (∃ c, net.consume s.consumer = .move c ∧ s₁ = { s with consumer := c }) ∨
      ∃ k next m rest, net.consume s.consumer = .read k next ∧ s.channel k = m :: rest ∧
        s₁ = { s with
          consumer := next m
          channel := Function.update s.channel k rest } := by
  simp only [step] at h
  cases hnext : net.consume s.consumer with
  | halt => simp [hnext] at h
  | move c =>
      simp only [hnext, Option.some.injEq] at h
      exact .inl ⟨c, rfl, h.symm⟩
  | read k next =>
      simp only [hnext] at h
      cases hqueue : s.channel k with
      | nil => simp [hqueue] at h
      | cons m rest =>
          simp only [hqueue, Option.some.injEq] at h
          exact .inr ⟨k, next, m, rest, rfl, hqueue, h.symm⟩

theorem producer_consumer_commute (hprod : net.step s .producer = some s₁)
    (hcons : net.step s .consumer = some s₂) :
    ∃ s₃, net.step s₁ .consumer = some s₃ ∧ net.step s₂ .producer = some s₃ := by
  rcases producer_cases hprod with ⟨p, hp, rfl⟩ | ⟨k, m, p, hp, hroom, rfl⟩
  · rcases consumer_cases hcons with ⟨c, hc, rfl⟩ | ⟨l, next, m', rest, hc, hqueue, rfl⟩
    · exact ⟨_, step_consumer_move hc, step_producer_move hp⟩
    · exact ⟨_, step_consumer_read hc hqueue, step_producer_move hp⟩
  · rcases consumer_cases hcons with ⟨c, hc, rfl⟩ | ⟨l, next, m', rest, hc, hqueue, rfl⟩
    · exact ⟨_, step_consumer_move hc, step_producer_write hp hroom⟩
    · -- Only a write and a read of the same queue meet.
      by_cases hkl : l = k
      · subst hkl
        -- The message that is read is in front of the one that is written.
        have hfront : Function.update s.channel l (s.channel l ++ [m]) l = m' :: (rest ++ [m]) := by
          rw [Function.update_self, hqueue, List.cons_append]
        have hroom' : (Function.update s.channel l rest l).length < net.capacity := by
          rw [Function.update_self]
          rw [hqueue, List.length_cons] at hroom
          omega
        have hwrite := step_producer_write
          (s := { s with consumer := next m', channel := Function.update s.channel l rest })
          hp hroom'
        refine ⟨_, step_consumer_read hc hfront, ?_⟩
        rw [hwrite]
        simp only [Function.update_self, Function.update_idem]
      · have hother : Function.update s.channel k (s.channel k ++ [m]) l = m' :: rest := by
          rw [Function.update_of_ne hkl, hqueue]
        have hroom' : (Function.update s.channel l rest k).length < net.capacity := by
          rw [Function.update_of_ne (Ne.symm hkl)]
          exact hroom
        have hwrite := step_producer_write
          (s := { s with consumer := next m', channel := Function.update s.channel l rest })
          hp hroom'
        refine ⟨_, step_consumer_read hc hother, ?_⟩
        rw [hwrite]
        simp only [Function.update_of_ne (Ne.symm hkl), Function.update_comm hkl]

variable (net) in
theorem commuting : Commuting net.step := by
  intro s s₁ s₂ a b hab h₁ h₂
  cases a with
  | producer =>
      cases b with
      | producer => exact absurd rfl hab
      | consumer => exact producer_consumer_commute h₁ h₂
  | consumer =>
      cases b with
      | producer =>
          rcases producer_consumer_commute h₂ h₁ with ⟨s₃, hcons, hprod⟩
          exact ⟨s₃, hprod, hcons⟩
      | consumer => exact absurd rfl hab

end Network

end Lib
end OsLab
