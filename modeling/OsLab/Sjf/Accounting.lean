import OsLab.Sjf.Exit

/-!
# Accounting — the times that the simulator records

`wait_time` is computed once, by subtraction, when a process finishes.  Here it is compared with a
count of ticks: `Balanced` says that at every instant the time since the arrival is the service
announced so far plus the ticks waited, less what is left of the current burst.  Every move keeps
this, and a tick adds to the ticks waited exactly when the process sits in a queue behind the
dispatches.
-/

namespace OsLab
namespace Sjf

open OsLab.Lib

/-! ## The balance of one process -/

/-- The time since the arrival is spent in service or waiting. -/
def Balanced (arrival now waited : Nat) (v : View) : Place → Prop
  | .away => waited = 0
  | .waiting _ _ => now = arrival + totalTime v.services + waited
  | .on _ left => now + left = arrival + totalTime v.services + waited
  | .finished => v.tr = totalTime v.services + waited

def Place.isWaiting : Place → Bool
  | .waiting _ _ => true
  | _ => false

section Balanced

variable {arrival now waited : Nat} {bursts : List Nat} {v v' : View} {pl pl' : Place}

theorem Balanced.move (hlife : Life arrival bursts now v pl)
    (hm : Move arrival now (v, pl) (v', pl')) (h : Balanced arrival now waited v pl) :
    Balanced arrival now waited v' pl' := by
  cases hm with
  | enter hnow hrest =>
      have hnone : v.services = [] := List.map_eq_nil_iff.1 hlife.accounted.1
      have hzero : waited = 0 := h
      simp [Balanced, hnone, totalTime, hnow, hzero]
  | start =>
      simp only [Balanced] at h
      simp only [Balanced, View.started, totalTime, List.map_append, List.sum_append, List.map_cons,
        List.map_nil, List.sum_singleton] at h ⊢
      omega
  | requeue hrest => exact h
  | finish hrest =>
      have hover : now + 0 = arrival + totalTime v.services + waited := h
      simp only [Balanced, View.completed]
      omega

theorem Balanced.moves {x y : View × Place} (hm : Moves arrival now x y)
    (hlife : Life arrival bursts now x.1 x.2) (h : Balanced arrival now waited x.1 x.2) :
    Balanced arrival now waited y.1 y.2 := by
  induction hm with
  | refl => exact h
  | tail hprefix hstep ih => exact Balanced.move (Life.moves hprefix hlife) hstep ih

/-- One tick passes: the waiting ones have waited one tick more. -/
theorem Balanced.advance (h : Balanced arrival now waited v pl)
    (hleft : ∀ d left, pl = .on d left → 1 ≤ left) :
    Balanced arrival (now + 1) (waited + if pl.isWaiting then 1 else 0) v pl.countdown := by
  cases pl with
  | away => exact h
  | finished => exact h
  | waiting d burst =>
      have hnow : now = arrival + totalTime v.services + waited := h
      simp [Balanced, Place.countdown, Place.isWaiting]
      omega
  | on d left =>
      have hpos := hleft d left rfl
      have hnow : now + left = arrival + totalTime v.services + waited := h
      simp [Balanced, Place.countdown, Place.isWaiting]
      omega

/-- Only the last move of a life writes the turnaround time. -/
theorem Moves.tr_eq {x y : View × Place} (hm : Moves arrival now x y) (hx : x.2 ≠ .finished)
    (hy : y.2 = .finished) : y.1.tr = (now : Int) - arrival := by
  induction hm with
  | refl => exact absurd hy hx
  | tail _ hstep _ =>
      cases hstep with
      | enter _ _ => simp at hy
      | start => simp at hy
      | requeue _ => simp at hy
      | finish _ => rfl

/-- Whoever is finished stays as it is. -/
theorem Moves.eq_of_finished {x y : View × Place} (hm : Moves arrival now x y)
    (hx : x.2 = .finished) : y = x := by
  induction hm with
  | refl => rfl
  | tail _ hstep ih =>
      rw [ih] at hstep
      rcases x with ⟨v, pl⟩
      have hpl : pl = .finished := hx
      subst hpl
      cases hstep

end Balanced

/-! ## What a finished process has recorded -/

/-- The bursts at even positions, which the CPU serves. -/
def cpuBursts : List Nat → List Nat
  | [] => []
  | [burst] => [burst]
  | burst :: _ :: rest => burst :: cpuBursts rest

theorem deviceFor_add_two (k : Nat) : deviceFor (k + 2) = deviceFor k := by
  rw [deviceFor_succ, deviceFor_succ]
  cases deviceFor k <;> rfl

theorem cpuTime_eq : ∀ {services : List Service},
    (∀ k r, services[k]? = some r → r.device = deviceFor k) →
      cpuTime services = (cpuBursts (services.map Service.length)).sum
  | [], _ => rfl
  | [a], h => by
      have ha : a.device = .cpu := h 0 a rfl
      simp [cpuTime, cpuBursts, ha]
  | a :: b :: rest, h => by
      have ha : a.device = .cpu := h 0 a rfl
      have hb : b.device = .io := h 1 b rfl
      have hrest : cpuTime rest = (cpuBursts (rest.map Service.length)).sum := by
        refine cpuTime_eq ?_
        intro k r hk
        rw [← deviceFor_add_two]
        exact h (k + 2) r hk
      simp only [cpuTime] at hrest
      simp [cpuTime, cpuBursts, ha, hb, hrest]

/-- Services one after the other take at least their lengths. -/
theorem start_add_totalTime_le : ∀ {services : List Service} {a z : Service},
    services.Pairwise (fun r r' => r.finish ≤ r'.start) → services.head? = some a →
      services.getLast? = some z → a.start + totalTime services ≤ z.finish
  | [], _, _, _, hhead, _ => by simp at hhead
  | [r], a, z, _, hhead, hlast => by
      have ha : r = a := by simpa using hhead
      have hz : r = z := by simpa using hlast
      subst ha hz
      simp [totalTime, Service.finish]
  | r :: r' :: rest, a, z, hordered, hhead, hlast => by
      have ha : r = a := by simpa using hhead
      subst ha
      have hnext : r'.start + totalTime (r' :: rest) ≤ z.finish :=
        start_add_totalTime_le (List.pairwise_cons.1 hordered).2 rfl (by simpa using hlast)
      have hgap : r.finish ≤ r'.start :=
        (List.pairwise_cons.1 hordered).1 r' List.mem_cons_self
      simp only [totalTime, Service.finish, List.map_cons, List.sum_cons] at hnext hgap ⊢
      omega

/-- The counters of a finished process. -/
structure Settled (bursts : List Nat) (waited : Nat) (v : View) : Prop where
  ptime : v.ptime = bursts.sum
  btime : v.btime = (cpuBursts bursts).sum
  wait : v.wait = waited
  rtime_nonneg : 0 ≤ v.rtime
  rtime_le : v.rtime ≤ v.wait
  wait_le : v.wait ≤ v.tr

theorem Life.settled {arrival now waited : Nat} {bursts : List Nat} {v : View}
    (h : Life arrival bursts now v .finished) (hbalance : Balanced arrival now waited v .finished) :
    Settled bursts waited v := by
  have hserved : v.services.map Service.length = bursts := h.accounted.1
  rcases h.recorded with ⟨⟨past, last, hlast, htr⟩, hwait⟩
  have htotal : v.tr = totalTime v.services + waited := hbalance
  have hptime := h.ptime
  have hw : v.wait = waited := by omega
  -- The services are not empty, since the last of them set the turnaround time.
  cases hservices : v.services with
  | nil => simp [hservices] at hlast
  | cons first rest =>
      have hfirst : v.services.head? = some first := by rw [hservices, List.head?_cons]
      have hrtime : v.rtime = (first.start : Int) - arrival := by rw [h.rtime, hfirst]; rfl
      have harrived : arrival ≤ first.start := h.started first (by simp [hservices])
      have hspan : first.start + totalTime v.services ≤ last.finish :=
        start_add_totalTime_le h.ordered hfirst (by rw [hlast, List.getLast?_concat])
      refine ⟨?_, ?_, hw, ?_, ?_, ?_⟩
      · rw [hptime, totalTime, hserved]
      · rw [h.btime, cpuTime_eq h.alternates, hserved]
      · omega
      · omega
      · omega

/-! ## Whole runs -/

/-- Process `p` sits in `pq` or `ioq` behind the dispatches of tick `t`. -/
def sitsInQueue (w : Workload) (t p : Nat) : Bool :=
  ((topOf w t).bind (serving w)).any fun m => (m.pq ++ m.ioq).any fun e => e.2 == p

/-- The ticks before tick `t` in which `p` sat in a queue. -/
def ticksWaited (w : Workload) (t p : Nat) : Nat :=
  (List.range t).countP fun t' => sitsInQueue w t' p

/-- Tick `t` records `p` as finished. -/
def FinishesAt (w : Workload) (t p : Nat) : Prop :=
  ∃ s r, topOf w t = some s ∧ tick w s = some r ∧ s.trTime p = 0 ∧ (r.elim id id).trTime p ≠ 0

section Runs

variable {w : Workload} {t : Nat} {s m : SimState} {place placeM : Nat → Place}
variable {r : SimState ⊕ SimState}

/-- One tick, whether it breaks or not: the moves behind the countdown. -/
theorem SimInv.outcome (h : SimInv w s place) (hserving : Sjf.serving w s = some m)
    (hm : Serving w s place m placeM) (hr : Sjf.tick w s = some r) :
    ∃ place' : Nat → Place, ∀ p, Moves (w.ptot p) (m.time + 1) (m.view p, (placeM p).countdown)
      ((r.elim id id).view p, place' p) := by
  rcases h.tick hserving hm with ⟨s', place', htick, hc⟩ | ⟨d, b, place', htick, hs⟩
  · rw [hr] at htick
    cases htick
    exact ⟨place', hc.moves⟩
  · rw [hr] at htick
    cases htick
    exact ⟨place', hs.moves⟩

theorem sitsInQueue_eq (hm : Serving w s place m placeM) (htop : topOf w t = some s)
    (hserving : Sjf.serving w s = some m) (p : Nat) :
    sitsInQueue w t p = (placeM p).isWaiting := by
  have hqueue : ∀ e, e ∈ m.pq ++ m.ioq ↔ ∃ d, placeM e.2 = .waiting d e.1 := by
    intro e
    rw [List.mem_append]
    constructor
    · rintro (he | he)
      · exact ⟨.cpu, (hm.refines.placed.waiting .cpu e.1 e.2).1 he⟩
      · exact ⟨.io, (hm.refines.placed.waiting .io e.1 e.2).1 he⟩
    · rintro ⟨d, he⟩
      have hmem := (hm.refines.placed.waiting d e.1 e.2).2 he
      cases d with
      | cpu => exact .inl hmem
      | io => exact .inr hmem
  rw [sitsInQueue, htop, Option.bind_some, hserving, Option.any_some, Bool.eq_iff_iff,
    List.any_eq_true]
  constructor
  · rintro ⟨e, he, hp⟩
    rcases (hqueue e).1 he with ⟨d, hplace⟩
    rw [beq_iff_eq.1 hp] at hplace
    rw [hplace]
    rfl
  · intro hwaiting
    cases hplace : placeM p with
    | waiting d burst => exact ⟨(burst, p), (hqueue _).2 ⟨d, hplace⟩, beq_self_eq_true p⟩
    | away => simp [hplace, Place.isWaiting] at hwaiting
    | on d left => simp [hplace, Place.isWaiting] at hwaiting
    | finished => simp [hplace, Place.isWaiting] at hwaiting

theorem ticksWaited_succ (t p : Nat) :
    ticksWaited w (t + 1) p = ticksWaited w t p + if sitsInQueue w t p then 1 else 0 := by
  rw [ticksWaited, List.range_succ, List.countP_append, List.countP_singleton]
  rfl

/-- The balance at the next instant, for whatever a process does at the end of the tick. -/
theorem SimInv.balanced_step (h : SimInv w s place) (htime : s.time = t) (htop : topOf w t = some s)
    (hserving : Sjf.serving w s = some m) (hm : Serving w s place m placeM) {p : Nat}
    (hbalance : Balanced (w.ptot p) t (ticksWaited w t p) (s.view p) (place p)) {v : View}
    {pl : Place}
    (hmoves : Moves (w.ptot p) (m.time + 1) (m.view p, (placeM p).countdown) (v, pl)) :
    Life (w.ptot p) (w.bursts p) (t + 1) v pl ∧
      Balanced (w.ptot p) (t + 1) (ticksWaited w (t + 1) p) v pl := by
  have hcounted := hm.life_counted h p
  have hfirst := hm.refines.moves p
  have hlife := h.life p
  rw [hm.refines.time, htime] at hcounted hmoves
  rw [htime] at hfirst hlife
  have hserved : Balanced (w.ptot p) t (ticksWaited w t p) (m.view p) (placeM p) :=
    Balanced.moves hfirst hlife hbalance
  have hnext := hserved.advance (hm.running h p).1
  rw [← sitsInQueue_eq hm htop hserving, ← ticksWaited_succ] at hnext
  exact ⟨Life.moves hmoves hcounted, Balanced.moves hmoves hcounted hnext⟩

theorem topOf_balanced : ∀ (t : Nat) {s : SimState}, topOf w t = some s →
    ∃ place, SimInv w s place ∧ s.time = t ∧
      ∀ p, Balanced (w.ptot p) t (ticksWaited w t p) (s.view p) (place p)
  | 0, s, h => by
      have hs : SimState.init w = s := by simpa [topOf] using h
      subst hs
      exact ⟨fun _ => .away, SimInv.init w, rfl, fun _ => rfl⟩
  | t + 1, s', h => by
      rcases topOf_succ.1 h with ⟨s, htop, htick⟩
      rcases topOf_balanced t htop with ⟨place, hinv, htime, hbalance⟩
      rcases hinv.serving with ⟨m, placeM, hserving, hm⟩
      rcases hinv.tick hserving hm with ⟨s₁, place', htick', hc⟩ | ⟨d, b, place', htick', _⟩
      · have hs : s₁ = s' := by simpa [htick] using htick'.symm
        subst hs
        refine ⟨place', hc.inv, by rw [hc.time, hm.refines.time, htime], ?_⟩
        intro p
        exact (hinv.balanced_step htime htop hserving hm (hbalance p) (hc.moves p)).2
      · simp [htick] at htick'

/-- A turnaround time other than 0 marks the finished processes. -/
theorem Life.tr_ne_zero_iff {arrival now : Nat} {bursts : List Nat} {v : View} {pl : Place}
    (hpos : ∀ b ∈ bursts, 1 ≤ b) (h : Life arrival bursts now v pl) :
    v.tr ≠ 0 ↔ pl = .finished := by
  have hrecorded := h.recorded
  cases pl with
  | away => exact ⟨fun hne => absurd hrecorded.1 hne, fun heq => by simp at heq⟩
  | waiting d burst => exact ⟨fun hne => absurd hrecorded.1 hne, fun heq => by simp at heq⟩
  | on d left => exact ⟨fun hne => absurd hrecorded.1 hne, fun heq => by simp at heq⟩
  | finished =>
      refine ⟨fun _ => rfl, fun _ => ?_⟩
      rcases hrecorded with ⟨⟨past, last, hlast, htr⟩, _⟩
      have hmem : last ∈ v.services := by simp [hlast]
      have hserved : v.services.map Service.length = bursts := h.accounted.1
      have hlength : 1 ≤ last.length := by
        apply hpos
        rw [← hserved]
        exact List.mem_map_of_mem hmem
      have hstart := h.started last hmem
      simp only [Service.finish] at htr
      omega

/-- One tick writes the turnaround time of those it finishes and keeps the others. -/
theorem SimInv.tr_step (h : SimInv w s place) (htime : s.time = t) (hr : Sjf.tick w s = some r)
    (p : Nat) :
    (s.trTime p ≠ 0 → (r.elim id id).trTime p = s.trTime p) ∧
      (s.trTime p = 0 → (r.elim id id).trTime p ≠ 0 →
        (r.elim id id).trTime p = (t : Int) + 1 - w.ptot p) := by
  rcases h.serving with ⟨m, placeM, hserving, hm⟩
  rcases h.outcome hserving hm hr with ⟨place', hmoves⟩
  have hsecond := hmoves p
  have hplace := Life.tr_ne_zero_iff (w.bursts_pos p) (h.life p)
  constructor
  · intro hne
    have hfirst := Moves.eq_of_finished (hm.refines.moves p) (hplace.1 hne)
    have hfinished : (placeM p).countdown = .finished := by
      rw [show placeM p = place p from congrArg Prod.snd hfirst, hplace.1 hne]
      rfl
    have hlast := Moves.eq_of_finished hsecond hfinished
    have hview : (r.elim id id).view p = s.view p :=
      (congrArg Prod.fst hlast).trans (congrArg Prod.fst hfirst)
    exact congrArg View.tr hview
  · intro hzero hne
    have hrunning : place p ≠ .finished := fun heq => hplace.2 heq hzero
    have hcounted : (placeM p).countdown ≠ .finished := by
      have hserved := (hm.running h p).2 hrunning
      cases hpl : placeM p with
      | finished => exact absurd hpl hserved
      | away => simp [Place.countdown]
      | waiting d burst => simp [Place.countdown]
      | on d left => simp [Place.countdown]
    have hlife := Life.moves hsecond (hm.life_counted h p)
    have hfinished := (Life.tr_ne_zero_iff (w.bursts_pos p) hlife).1 hne
    have htr := Moves.tr_eq hsecond hcounted hfinished
    rw [hm.refines.time, htime, Nat.cast_succ] at htr
    exact htr

/-- Before tick `t` one tick at most has finished `p`, and `tr` is counted from it. -/
def Chronicle (w : Workload) (t p : Nat) (tr : Int) : Prop :=
  (tr = 0 ∧ ∀ t' < t, ¬ FinishesAt w t' p) ∨
    (tr ≠ 0 ∧ ∃ t₀ < t, tr = (t₀ : Int) + 1 - w.ptot p ∧ ∀ t' < t, FinishesAt w t' p ↔ t' = t₀)

theorem Chronicle.step (h : SimInv w s place) (htime : s.time = t) (htop : topOf w t = some s)
    (hr : tick w s = some r) {p : Nat} (hc : Chronicle w t p (s.trTime p)) :
    Chronicle w (t + 1) p ((r.elim id id).trTime p) := by
  have hnow : FinishesAt w t p ↔ s.trTime p = 0 ∧ (r.elim id id).trTime p ≠ 0 := by
    constructor
    · rintro ⟨s', r', htop', hr', hfin⟩
      rw [htop] at htop'
      cases htop'
      rw [hr] at hr'
      cases hr'
      exact hfin
    · intro hfin
      exact ⟨s, r, htop, hr, hfin⟩
  rcases h.tr_step htime hr p with ⟨hkeep, hwrite⟩
  rcases hc with ⟨hzero, hnone⟩ | ⟨hne, t₀, ht₀, htr, honly⟩
  · by_cases hafter : (r.elim id id).trTime p = 0
    · left
      refine ⟨hafter, ?_⟩
      intro t' ht' hfin
      rcases Nat.lt_succ_iff_lt_or_eq.1 ht' with hlt | rfl
      · exact hnone t' hlt hfin
      · exact (hnow.1 hfin).2 hafter
    · right
      refine ⟨hafter, t, Nat.lt_succ_self t, hwrite hzero hafter, ?_⟩
      intro t' ht'
      rcases Nat.lt_succ_iff_lt_or_eq.1 ht' with hlt | rfl
      · exact ⟨fun hfin => absurd hfin (hnone t' hlt), fun heq => absurd heq (Nat.ne_of_lt hlt)⟩
      · exact ⟨fun _ => rfl, fun _ => hnow.2 ⟨hzero, hafter⟩⟩
  · right
    rw [hkeep hne]
    refine ⟨hne, t₀, Nat.lt_succ_of_lt ht₀, htr, ?_⟩
    intro t' ht'
    rcases Nat.lt_succ_iff_lt_or_eq.1 ht' with hlt | rfl
    · exact honly t' hlt
    · exact ⟨fun hfin => absurd (hnow.1 hfin).1 hne, fun heq => absurd ht₀ (heq ▸ Nat.lt_irrefl _)⟩

theorem topOf_chronicle : ∀ (t : Nat) {s : SimState}, topOf w t = some s →
    ∀ p, Chronicle w t p (s.trTime p)
  | 0, s, h, p => by
      have hs : SimState.init w = s := by simpa [topOf] using h
      subst hs
      exact .inl ⟨rfl, fun t' ht' => absurd ht' (Nat.not_lt_zero t')⟩
  | t + 1, s', h, p => by
      rcases topOf_succ.1 h with ⟨s, htop, htick⟩
      rcases topOf_balanced t htop with ⟨place, hinv, htime, _⟩
      exact Chronicle.step hinv htime htop htick (topOf_chronicle t htop p)

/-- Behind the tick that breaks there is none. -/
theorem topOf_of_stop {b : SimState} (htop : topOf w t = some s) (htick : tick w s = some (.inr b)) :
    ∀ k, topOf w (t + 1 + k) = none
  | 0 => by simp [topOf, htop, htick]
  | k + 1 => by
      rw [← Nat.add_assoc, topOf, topOf_of_stop htop htick k]
      rfl

end Runs

/-- **Accounting.**  What the loop has recorded for a finished process `p`: the turnaround time up to
the end of the tick that finished it, the bursts in total and on the CPU, the ticks spent in a queue,
and the response time within them. -/
theorem sjf_accounting (w : Workload) (fuel : Nat) (b : SimState)
    (hb : startEvent w fuel = some b) (p : Nat) (hfinished : b.trTime p ≠ 0) :
    (∃ t, FinishesAt w t p) ∧
      (∀ t, FinishesAt w t p → b.trTime p = (t : Int) + 1 - w.ptot p) ∧
      b.ptimeTotal p = (w.bursts p).sum ∧
      b.btimeTotal p = (cpuBursts (w.bursts p)).sum ∧
      b.waitTime p = ticksWaited w (b.time + 1) p ∧
      0 ≤ b.rtimeTotal p ∧ b.rtimeTotal p ≤ b.waitTime p ∧ b.waitTime p ≤ b.trTime p := by
  rcases startEvent_stop hb with ⟨t, s, htop, htick⟩
  rcases topOf_balanced t htop with ⟨place, hinv, htime, hbalance⟩
  rcases hinv.serving with ⟨m, placeM, hserving, hm⟩
  rcases hinv.tick hserving hm with ⟨s', place', htick', _⟩ | ⟨d, b', place', htick', hstop⟩
  · simp [htick] at htick'
  · have hbb : b' = b := by simpa [htick] using htick'.symm
    subst hbb
    have hbtime : b'.time = t := by rw [hstop.time, hm.refines.time, htime]
    rcases hinv.balanced_step htime htop hserving hm (hbalance p) (hstop.moves p) with
      ⟨hlife, hbalanced⟩
    have hplace : place' p = .finished := (Life.tr_ne_zero_iff (w.bursts_pos p) hlife).1 hfinished
    rw [hplace] at hlife hbalanced
    have hsettled := hlife.settled hbalanced
    have hchronicle := Chronicle.step hinv htime htop htick (topOf_chronicle t htop p)
    rcases hchronicle with ⟨hzero, _⟩ | ⟨_, t₀, ht₀, htr, honly⟩
    · exact absurd hzero hfinished
    · refine ⟨⟨t₀, (honly t₀ ht₀).2 rfl⟩, ?_, hsettled.ptime, hsettled.btime, ?_,
        hsettled.rtime_nonneg, hsettled.rtime_le, hsettled.wait_le⟩
      · intro t' hfin
        have hlt : t' < t + 1 := by
          by_contra hlate
          rcases Nat.exists_eq_add_of_le (Nat.le_of_not_lt hlate) with ⟨k, rfl⟩
          rcases hfin with ⟨s', _, htop', _⟩
          simp [topOf_of_stop htop htick k] at htop'
        rw [(honly t' hlt).1 hfin]
        exact htr
      · rw [hbtime]
        exact hsettled.wait

/-- A process with one burst. -/
def Job.single (arrival burst : Nat) (hburst : 1 ≤ burst) : Job :=
  ⟨arrival, [burst], List.cons_ne_nil burst [], List.forall_mem_singleton.2 hburst⟩

/-- Two processes that arrive together; the shorter one is second in the file. -/
def sharedCpu : Workload :=
  [.single 0 2 one_le_two, .single 0 1 le_rfl]

/-- Process 0 waits for one tick and finishes in tick 2. -/
theorem sjf_accounting_sharedCpu :
    ∃ b, startEvent sharedCpu 3 = some b ∧ b.trTime 0 = 3 ∧ FinishesAt sharedCpu 2 0 ∧
      b.ptimeTotal 0 = 2 ∧ b.waitTime 0 = ticksWaited sharedCpu (b.time + 1) 0 ∧
      ticksWaited sharedCpu (b.time + 1) 0 = 1 := by
  have hrun : startEvent sharedCpu 3 = some ((startEvent sharedCpu 3).get (by decide)) := by simp
  have htr : ((startEvent sharedCpu 3).get (by decide)).trTime 0 = 3 := by decide
  rcases sjf_accounting sharedCpu 3 _ hrun 0 (by rw [htr]; decide) with
    ⟨⟨t, hfin⟩, hall, hptime, _, hwait, _⟩
  have ht : t = 2 := by
    have hlate := hall t hfin
    rw [htr, show sharedCpu.ptot 0 = 0 from rfl] at hlate
    omega
  exact ⟨_, hrun, htr, ht ▸ hfin, hptime, hwait, by decide⟩

end Sjf
end OsLab
