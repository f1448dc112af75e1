import OsLab.Sjf.Lifecycle
import OsLab.Sjf.Model

/-!
# Refinement — the simulator moves processes through their life cycles

The shared queues, flags and counters of the simulator are read as one `View` and one `Place` for
each process.  `Placed` says that the queues and slots hold exactly the processes whose place says
so, each once.  Every block of `startEvent` is then shown to be a `Move` of at most one process
(arrivals: one after the other) that leaves all others alone.
-/

namespace OsLab
namespace Sjf

open OsLab.Lib

/-! ## Reading a state -/

/-- The service that a printed line announces for process `pid`. -/
def serviceOf (pid : Nat) : Event → Option Service
  | .scheduled time p burst _ => if p = pid then some ⟨.cpu, time, burst⟩ else none
  | .ioScheduled time p burst => if p = pid then some ⟨.io, time, burst⟩ else none
  | _ => none

namespace SimState

/-- The bursts of `pid` dispatched so far, in the order of dispatch. -/
def services (s : SimState) (pid : Nat) : List Service :=
  s.log.filterMap (serviceOf pid)

def view (s : SimState) (pid : Nat) : View :=
  { services := s.services pid
    rest := s.process pid
    ptime := s.ptimeTotal pid
    btime := s.btimeTotal pid
    rtime := s.rtimeTotal pid
    tr := s.trTime pid
    wait := s.waitTime pid }

def queue (s : SimState) : Device → List (Nat × Nat)
  | .cpu => s.pq
  | .io => s.ioq

/-- The process on a device and its ticks to go. -/
def slot (s : SimState) : Device → Option (Int × Nat)
  | .cpu => if s.processgoingon then some (s.ongoingpid, s.waitprocessgoingon) else none
  | .io => if s.ioprocessgoingon then some (s.ioongoingpid, s.iowaitprocessgoingon) else none

/-- Clear the flag of a device. -/
def release : Device → SimState → SimState
  | .cpu, s => { s with processgoingon := false }
  | .io, s => { s with ioprocessgoingon := false }

end SimState

/-! ## Places -/

/-- Queues and slots hold exactly the processes whose place says so, each once. -/
structure Placed (queue : Device → List (Nat × Nat)) (slot : Device → Option (Int × Nat))
    (place : Nat → Place) : Prop where
  waiting : ∀ d burst p, (burst, p) ∈ queue d ↔ place p = .waiting d burst
  nodup : ∀ d, (queue d).Nodup
  on : ∀ d (p left : Nat), slot d = some ((p : Int), left) ↔ place p = .on d left
  named : ∀ d i left, slot d = some (i, left) → ∃ p : Nat, i = p

section Placed

variable {queue : Device → List (Nat × Nat)} {slot : Device → Option (Int × Nat)}
variable {place : Nat → Place}

/-- A process outside all queues and slots enters the queue of `d`. -/
theorem Placed.enter (h : Placed queue slot place) {p burst : Nat} (d : Device)
    (haway : place p = .away) {q : List (Nat × Nat)} (hq : q.Perm ((burst, p) :: queue d)) :
    Placed (Function.update queue d q) slot (Function.update place p (.waiting d burst)) where
  waiting := by
    intro d' b p'
    by_cases hd : d' = d
    · subst hd
      by_cases hp : p' = p
      · -- The only entry of `p` is the new one.
        subst hp
        have hnot : ∀ b', (b', p') ∉ queue d' := fun b' hmem => by
          simpa [haway] using (h.waiting d' b' p').1 hmem
        simp [hq.mem_iff, hnot, eq_comm]
      · simp [hq.mem_iff, hp, h.waiting d' b p']
    · by_cases hp : p' = p
      · subst hp
        have hnot : (b, p') ∉ queue d' := fun hmem => by
          simpa [haway] using (h.waiting d' b p').1 hmem
        simp [hd, hnot, Ne.symm hd]
      · simp [hd, hp, h.waiting d' b p']
  nodup := by
    intro d'
    by_cases hd : d' = d
    · subst hd
      have hnot : (burst, p) ∉ queue d' := fun hmem => by
        simpa [haway] using (h.waiting d' burst p).1 hmem
      simpa using hq.nodup_iff.2 (List.nodup_cons.2 ⟨hnot, h.nodup d'⟩)
    · simpa [hd] using h.nodup d'
  on := by
    intro d' p' left
    by_cases hp : p' = p
    · subst hp
      simp [h.on d' p' left, haway]
    · simp [hp, h.on d' p' left]
  named := h.named

/-- The head of the queue of an idle device starts its burst. -/
theorem Placed.start (h : Placed queue slot place) {d : Device} {p burst : Nat}
    {rest : List (Nat × Nat)} (hqueue : queue d = (burst, p) :: rest) (hslot : slot d = none) :
    Placed (Function.update queue d rest) (Function.update slot d (some ((p : Int), burst)))
      (Function.update place p (.on d burst)) where
  waiting := by
    intro d' b p'
    have hplace : place p = .waiting d burst := (h.waiting d burst p).1 (by simp [hqueue])
    by_cases hp : p' = p
    · subst hp
      by_cases hd : d' = d
      · subst hd
        -- Another entry of the same process would have the same burst, and there is one copy only.
        have hnot : (b, p') ∉ rest := by
          intro hmem
          have hb : b = burst := by
            have := (h.waiting d' b p').1 (by simp [hqueue, hmem])
            simpa [hplace, eq_comm] using this
          have hnodup := h.nodup d'
          rw [hqueue, ← hb] at hnodup
          exact (List.nodup_cons.1 hnodup).1 hmem
        simp [hnot]
      · simp [hd, h.waiting d' b p', hplace, Ne.symm hd]
    · by_cases hd : d' = d
      · subst hd
        have := h.waiting d' b p'
        simpa [hqueue, hp] using this
      · simp [hd, hp, h.waiting d' b p']
  nodup := by
    intro d'
    by_cases hd : d' = d
    · subst hd
      have hnodup := h.nodup d'
      rw [hqueue] at hnodup
      simpa using (List.nodup_cons.1 hnodup).2
    · simpa [hd] using h.nodup d'
  on := by
    intro d' p' left
    have hplace : place p = .waiting d burst := (h.waiting d burst p).1 (by simp [hqueue])
    by_cases hp : p' = p
    · subst hp
      by_cases hd : d' = d
      · subst hd
        simp
      · simp [hd, h.on d' p' left, hplace, Ne.symm hd]
    · by_cases hd : d' = d
      · subst hd
        have hnone : place p' ≠ .on d' left := fun hon => by
          simpa [hslot] using (h.on d' p' left).2 hon
        have hne : (p : Int) ≠ p' := fun heq => hp (by omega)
        simp [hp, hnone, hne]
      · simp [hd, hp, h.on d' p' left]
  named := by
    intro d' i left hs
    by_cases hd : d' = d
    · subst hd
      have : (p : Int) = i ∧ burst = left := by simpa using hs
      exact ⟨p, this.1.symm⟩
    · exact h.named d' i left (by simpa [hd] using hs)

/-- The process on `d` leaves it. -/
theorem Placed.leave (h : Placed queue slot place) {d : Device} {p left : Nat}
    (hslot : slot d = some ((p : Int), left)) {pl : Place} (hpl : pl = .away ∨ pl = .finished) :
    Placed queue (Function.update slot d none) (Function.update place p pl) where
  waiting := by
    intro d' b p'
    by_cases hp : p' = p
    · subst hp
      have hplace : place p' = .on d left := (h.on d p' left).1 hslot
      rcases hpl with hpl | hpl <;> simp [h.waiting d' b p', hplace, hpl]
    · simp [hp, h.waiting d' b p']
  nodup := h.nodup
  on := by
    intro d' p' left'
    by_cases hp : p' = p
    · subst hp
      have hplace : place p' = .on d left := (h.on d p' left).1 hslot
      by_cases hd : d' = d
      · rcases hpl with hpl | hpl <;> simp [hd, hpl]
      · rcases hpl with hpl | hpl <;> simp [hd, hpl, h.on d' p' left', hplace, Ne.symm hd]
    · by_cases hd : d' = d
      · subst hd
        have hnone : place p' ≠ .on d' left' := fun hon => by
          have := (h.on d' p' left').2 hon
          rw [hslot] at this
          have : (p : Int) = p' ∧ left = left' := by simpa using this
          omega
        simp [hp, hnone]
      · simp [hd, hp, h.on d' p' left']
  named := by
    intro d' i left' hs
    by_cases hd : d' = d
    · subst hd
      simp at hs
    · exact h.named d' i left' (by simpa [hd] using hs)

theorem Place.countdown_eq_on {pl : Place} {d : Device} {left : Nat} :
    pl.countdown = .on d left ↔ ∃ l, pl = .on d l ∧ l - 1 = left := by
  cases pl with
  | on d' l => simp [Place.countdown, and_assoc, and_comm]
  | away => simp [Place.countdown]
  | waiting d' b => simp [Place.countdown]
  | finished => simp [Place.countdown]

theorem Place.countdown_eq_waiting {pl : Place} {d : Device} {burst : Nat} :
    pl.countdown = .waiting d burst ↔ pl = .waiting d burst := by
  cases pl <;> simp [Place.countdown]

theorem Place.countdown_eq_away {pl : Place} : pl.countdown = .away ↔ pl = .away := by
  cases pl <;> simp [Place.countdown]

theorem Placed.countdown (h : Placed queue slot place) :
    Placed queue (fun d => (slot d).map fun x => (x.1, x.2 - 1))
      (fun p => (place p).countdown) where
  waiting := fun d b p => (h.waiting d b p).trans Place.countdown_eq_waiting.symm
  nodup := h.nodup
  on := by
    intro d p left
    rw [Place.countdown_eq_on, Option.map_eq_some_iff]
    constructor
    · rintro ⟨⟨i, l⟩, hs, heq⟩
      have hpair : i = p ∧ l - 1 = left := by simpa using heq
      exact ⟨l, (h.on d p l).1 (hpair.1 ▸ hs), hpair.2⟩
    · rintro ⟨l, hpl, hl⟩
      exact ⟨(p, l), (h.on d p l).2 hpl, by simp [hl]⟩
  named := by
    intro d i left hs
    rcases Option.map_eq_some_iff.1 hs with ⟨⟨i', l⟩, hs', heq⟩
    have hpair : i' = i ∧ l - 1 = left := by simpa using heq
    exact h.named d i l (hpair.1 ▸ hs')

end Placed

/-! ## Blocks of the loop -/

/-- `s'` at `place'` comes from `s` at `place` by moves of the processes at the instant `now`. -/
structure Refines (w : Workload) (now : Nat) (s : SimState) (place : Nat → Place) (s' : SimState)
    (place' : Nat → Place) : Prop where
  placed : Placed s'.queue s'.slot place'
  moves : ∀ p, Moves (w.ptot p) now (s.view p, place p) (s'.view p, place' p)
  time : s'.time = s.time

section Blocks

variable {w : Workload} {now : Nat} {s s' s'' : SimState} {place place' place'' : Nat → Place}

theorem Refines.refl (h : Placed s.queue s.slot place) : Refines w now s place s place where
  placed := h
  moves := fun _ => Relation.ReflTransGen.refl
  time := rfl

theorem Refines.trans (h : Refines w now s place s' place')
    (h' : Refines w now s' place' s'' place'') : Refines w now s place s'' place'' where
  placed := h'.placed
  moves := fun p => (h.moves p).trans (h'.moves p)
  time := h'.time.trans h.time

/-- A block that moves the process `pid` and touches no other. -/
theorem Refines.single {pid : Nat} {v : View} {pl : Place} (htime : s'.time = s.time)
    (hplaced : Placed s'.queue s'.slot (Function.update place pid pl))
    (hview : s'.view = Function.update s.view pid v)
    (hmove : Move (w.ptot pid) now (s.view pid, place pid) (v, pl)) :
    Refines w now s place s' (Function.update place pid pl) where
  placed := hplaced
  moves := by
    intro p
    rw [hview]
    by_cases hp : p = pid
    · subst hp
      simpa using Relation.ReflTransGen.single hmove
    · simpa [hp] using Relation.ReflTransGen.refl
  time := htime

theorem update_eq_away_iff {pid : Nat} {pl : Place} (hold : place pid ≠ .away) (hnew : pl ≠ .away)
    (p : Nat) : Function.update place pid pl p = .away ↔ place p = .away := by
  by_cases hp : p = pid
  · subst hp
    simp [hold, hnew]
  · simp [hp]

theorem push_perm (e : Nat × Nat) (pq : List (Nat × Nat)) : (push e pq).Perm (e :: pq) :=
  lowerInsert_perm pairLt e pq

/-! ### Queueing a burst -/

theorem toReady_queue (s : SimState) (pid burst : Nat) (rest : List Nat) :
    (toReady s pid burst rest).queue = Function.update s.queue .cpu (push (burst, pid) s.pq) := by
  funext d
  cases d <;> rfl

theorem toReady_slot (s : SimState) (pid burst : Nat) (rest : List Nat) :
    (toReady s pid burst rest).slot = s.slot := by
  funext d
  cases d <;> rfl

theorem toReady_view (s : SimState) (pid burst : Nat) (rest : List Nat) :
    (toReady s pid burst rest).view =
      Function.update s.view pid { s.view pid with rest := rest } := by
  funext p
  by_cases hp : p = pid
  · subst hp
    simp [toReady, SimState.view, SimState.services]
  · simp [toReady, SimState.view, SimState.services, hp]

theorem toIo_queue (s : SimState) (pid burst : Nat) (rest : List Nat) :
    (toIo s pid burst rest).queue = Function.update s.queue .io (s.ioq ++ [(burst, pid)]) := by
  funext d
  cases d <;> rfl

theorem toIo_slot (s : SimState) (pid burst : Nat) (rest : List Nat) :
    (toIo s pid burst rest).slot = s.slot := by
  funext d
  cases d <;> rfl

theorem toIo_view (s : SimState) (pid burst : Nat) (rest : List Nat) :
    (toIo s pid burst rest).view =
      Function.update s.view pid { s.view pid with rest := rest } := by
  funext p
  by_cases hp : p = pid
  · subst hp
    simp [toIo, SimState.view, SimState.services]
  · simp [toIo, SimState.view, SimState.services, hp]

/-! ### Arrivals -/

/-- The line of an arrival announces no service. -/
theorem arrived_view (s : SimState) (time pid burst : Nat) :
    (printLine (.arrived time pid burst) s).view = s.view := by
  funext p
  simp [printLine, SimState.view, SimState.services, serviceOf]

theorem arrive_refines (hplaced : Placed s.queue s.slot place) {pid : Nat}
    (haway : place pid = .away) (hnow : s.time = w.ptot pid) (hne : s.process pid ≠ []) :
    ∃ s' burst, arrive s pid = some s' ∧
      Refines w s.time s place s' (Function.update place pid (.waiting .cpu burst)) ∧
      s'.slot = s.slot ∧ ∀ p, p ≠ pid → s'.process p = s.process p := by
  cases hproc : s.process pid with
  | nil => exact absurd hproc hne
  | cons burst rest =>
      refine ⟨printLine (.arrived s.time pid burst) (toReady s pid burst rest), burst,
        by simp only [arrive, hproc], ?_, rfl, fun p hp => Function.update_of_ne hp _ _⟩
      have hqueue : (printLine (.arrived s.time pid burst) (toReady s pid burst rest)).queue =
          Function.update s.queue .cpu (push (burst, pid) s.pq) := toReady_queue s pid burst rest
      have hview : (printLine (.arrived s.time pid burst) (toReady s pid burst rest)).view =
          Function.update s.view pid { s.view pid with rest := rest } := by
        rw [arrived_view, toReady_view]
      refine Refines.single rfl ?_ hview ?_
      · rw [hqueue]
        exact hplaced.enter .cpu haway (push_perm _ _)
      · rw [haway]
        exact Move.enter hnow hproc

/-- The arrivals of a tick, one after the other. -/
theorem arriveAll_refines :
    ∀ (pids : List Nat) {s : SimState} {place : Nat → Place}, Placed s.queue s.slot place →
      pids.Nodup → (∀ p ∈ pids, place p = .away ∧ s.time = w.ptot p ∧ s.process p ≠ []) →
      ∃ s' place', pids.foldlM arrive s = some s' ∧ Refines w s.time s place s' place' ∧
        s'.slot = s.slot ∧ ∀ p, place' p = .away ↔ place p = .away ∧ p ∉ pids
  | [], s, place, hplaced, _, _ => ⟨s, place, rfl, Refines.refl hplaced, rfl, by simp⟩
  | pid :: pids, s, place, hplaced, hnodup, hpids => by
      rcases hpids pid (by simp) with ⟨haway, hnow, hne⟩
      rcases arrive_refines hplaced haway hnow hne with ⟨s₁, burst, hone, href, hslot, hframe⟩
      have hpid : pid ∉ pids := (List.nodup_cons.1 hnodup).1
      have hrest : ∀ p ∈ pids, Function.update place pid (.waiting .cpu burst) p = .away ∧
          s₁.time = w.ptot p ∧ s₁.process p ≠ [] := by
        intro p hp
        have hpne : p ≠ pid := fun heq => hpid (heq ▸ hp)
        rcases hpids p (List.mem_cons_of_mem _ hp) with ⟨ha, ht, hn⟩
        exact ⟨by simpa [hpne] using ha, href.time.trans ht, by simpa [hframe p hpne] using hn⟩
      rcases arriveAll_refines pids href.placed (List.nodup_cons.1 hnodup).2 hrest with
        ⟨s₂, place₂, hall, href₂, hslot₂, haway₂⟩
      refine ⟨s₂, place₂, by simp [List.foldlM_cons, hone, hall],
        href.trans (href.time ▸ href₂), hslot₂.trans hslot, ?_⟩
      intro p
      rw [haway₂ p]
      by_cases hp : p = pid
      · simp [hp]
      · simp [hp]

/-! ### Dispatches -/

theorem cpuStart_view (w : Workload) (s : SimState) (burst pid : Nat) (rest : List (Nat × Nat)) :
    (cpuStart w s burst pid rest).view = Function.update s.view pid
      ((s.view pid).started (w.ptot pid) s.time .cpu burst) := by
  funext p
  by_cases hp : p = pid
  · subst hp
    simp [cpuStart, SimState.view, SimState.services, serviceOf, View.started, response]
  · simp [cpuStart, SimState.view, SimState.services, serviceOf, hp, Ne.symm hp]

theorem cpuStart_refines (hplaced : Placed s.queue s.slot place) (hidle : s.slot .cpu = none)
    {burst pid : Nat} {rest : List (Nat × Nat)} (hpq : s.pq = (burst, pid) :: rest) :
    Refines w s.time s place (cpuStart w s burst pid rest)
      (Function.update place pid (.on .cpu burst)) := by
  have hplace : place pid = .waiting .cpu burst :=
    (hplaced.waiting .cpu burst pid).1 (by simp [SimState.queue, hpq])
  have hqueue : (cpuStart w s burst pid rest).queue = Function.update s.queue .cpu rest := by
    funext d
    cases d <;> rfl
  have hslot : (cpuStart w s burst pid rest).slot =
      Function.update s.slot .cpu (some ((pid : Int), burst)) := by
    funext d
    cases d <;> rfl
  refine Refines.single rfl ?_ (cpuStart_view w s burst pid rest) ?_
  · rw [hqueue, hslot]
    exact hplaced.start hpq hidle
  · rw [hplace]
    exact Move.start

theorem ioStart_view (w : Workload) (s : SimState) (burst pid : Nat) (rest : List (Nat × Nat)) :
    (ioStart s burst pid rest).view = Function.update s.view pid
      ((s.view pid).started (w.ptot pid) s.time .io burst) := by
  funext p
  by_cases hp : p = pid
  · subst hp
    simp [ioStart, SimState.view, SimState.services, serviceOf, View.started]
  · simp [ioStart, SimState.view, SimState.services, serviceOf, hp, Ne.symm hp]

theorem ioStart_refines (hplaced : Placed s.queue s.slot place) (hidle : s.slot .io = none)
    {burst pid : Nat} {rest : List (Nat × Nat)} (hioq : s.ioq = (burst, pid) :: rest) :
    Refines w s.time s place (ioStart s burst pid rest)
      (Function.update place pid (.on .io burst)) := by
  have hplace : place pid = .waiting .io burst :=
    (hplaced.waiting .io burst pid).1 (by simp [SimState.queue, hioq])
  have hqueue : (ioStart s burst pid rest).queue = Function.update s.queue .io rest := by
    funext d
    cases d <;> rfl
  have hslot : (ioStart s burst pid rest).slot =
      Function.update s.slot .io (some ((pid : Int), burst)) := by
    funext d
    cases d <;> rfl
  refine Refines.single rfl ?_ (ioStart_view w s burst pid rest) ?_
  · rw [hqueue, hslot]
    exact hplaced.start hioq hidle
  · rw [hplace]
    exact Move.start

/-- What a dispatch of device `d` does: afterwards the device is busy or nobody waits for it. -/
structure Dispatched (w : Workload) (d : Device) (s : SimState) (place : Nat → Place)
    (s' : SimState) (place' : Nat → Place) : Prop where
  refines : Refines w s.time s place s' place'
  away : ∀ p, place' p = .away ↔ place p = .away
  busy : s'.slot d = none → s'.queue d = []
  slot_other : s'.slot d.other = s.slot d.other
  queue_other : s'.queue d.other = s.queue d.other

theorem Dispatched.none {d : Device} (hplaced : Placed s.queue s.slot place)
    (hbusy : s.slot d = none → s.queue d = []) : Dispatched w d s place s place :=
  ⟨Refines.refl hplaced, fun _ => Iff.rfl, hbusy, rfl, rfl⟩

theorem cpuDispatch_dispatched (hplaced : Placed s.queue s.slot place) :
    ∃ place', Dispatched w .cpu s place (cpuDispatch w s) place' := by
  by_cases hbusy : s.processgoingon = true
  · refine ⟨place, ?_⟩
    simp only [cpuDispatch, hbusy, if_true]
    exact Dispatched.none hplaced (by simp [SimState.slot, hbusy])
  · have hidle : s.slot .cpu = none := by simp [SimState.slot, hbusy]
    cases hpq : s.pq with
    | nil =>
        refine ⟨place, ?_⟩
        simp only [cpuDispatch, hbusy, hpq]
        exact Dispatched.none hplaced (fun _ => hpq)
    | cons e rest =>
        rcases e with ⟨burst, pid⟩
        have hplace : place pid = .waiting .cpu burst :=
          (hplaced.waiting .cpu burst pid).1 (by simp [SimState.queue, hpq])
        refine ⟨Function.update place pid (.on .cpu burst), ?_⟩
        simp only [cpuDispatch, hbusy, hpq]
        exact ⟨cpuStart_refines hplaced hidle hpq, update_eq_away_iff (by simp [hplace]) (by simp),
          by simp [SimState.slot, cpuStart], rfl, rfl⟩

theorem ioDispatch_dispatched (hplaced : Placed s.queue s.slot place) :
    ∃ place', Dispatched w .io s place (ioDispatch s) place' := by
  by_cases hbusy : s.ioprocessgoingon = true
  · refine ⟨place, ?_⟩
    simp only [ioDispatch, hbusy, if_true]
    exact Dispatched.none hplaced (by simp [SimState.slot, hbusy])
  · have hidle : s.slot .io = none := by simp [SimState.slot, hbusy]
    cases hioq : s.ioq with
    | nil =>
        refine ⟨place, ?_⟩
        simp only [ioDispatch, hbusy, hioq]
        exact Dispatched.none hplaced (fun _ => hioq)
    | cons e rest =>
        rcases e with ⟨burst, pid⟩
        have hplace : place pid = .waiting .io burst :=
          (hplaced.waiting .io burst pid).1 (by simp [SimState.queue, hioq])
        refine ⟨Function.update place pid (.on .io burst), ?_⟩
        simp only [ioDispatch, hbusy, hioq]
        exact ⟨ioStart_refines hplaced hidle hioq, update_eq_away_iff (by simp [hplace]) (by simp),
          by simp [SimState.slot, ioStart], rfl, rfl⟩

/-! ### Completions -/

@[simp] theorem release_slot (d : Device) (s : SimState) : (s.release d).slot d = none := by
  cases d <;> rfl

@[simp] theorem release_slot_other (d : Device) (s : SimState) :
    (s.release d).slot d.other = s.slot d.other := by
  cases d <;> rfl

@[simp] theorem release_queue (d : Device) (s : SimState) : (s.release d).queue = s.queue := by
  funext d'
  cases d <;> cases d' <;> rfl

@[simp] theorem release_view (d : Device) (s : SimState) : (s.release d).view = s.view := by
  cases d <;> rfl

@[simp] theorem release_time (d : Device) (s : SimState) : (s.release d).time = s.time := by
  cases d <;> rfl

theorem release_slot_eq (d : Device) {s : SimState} (hslot : s'.slot = s.slot) :
    (s'.release d).slot = Function.update s.slot d none := by
  funext d'
  by_cases hd : d' = d
  · subst hd
    simp
  · have hother : d' = d.other := Device.eq_other_of_ne hd
    subst hother
    simp [hd, hslot]

theorem finish_view (w : Workload) (s : SimState) (pid : Nat) :
    (finish w s pid).view = Function.update s.view pid
      ((s.view pid).completed (w.ptot pid) (s.time + 1)) := by
  funext p
  by_cases hp : p = pid
  · subst hp
    have htr : (s.time : Int) - w.ptot p + 1 = ((s.time + 1 : Nat) : Int) - w.ptot p := by omega
    simp only [finish, SimState.view, SimState.services, View.completed, Function.update_self, htr]
    simp [serviceOf]
  · simp [finish, SimState.view, SimState.services, serviceOf, hp]

/-- The burst on `d` is over and was the last one. -/
theorem finish_refines (hplaced : Placed s.queue s.slot place) {d : Device} {pid : Nat}
    (hslot : s.slot d = some ((pid : Int), 0)) (hrest : s.process pid = []) :
    Refines w (s.time + 1) s place ((finish w s pid).release d)
      (Function.update place pid .finished) := by
  have hplace : place pid = .on d 0 := (hplaced.on d pid 0).1 hslot
  have hview : ((finish w s pid).release d).view = Function.update s.view pid
      ((s.view pid).completed (w.ptot pid) (s.time + 1)) := by
    rw [release_view]
    exact finish_view w s pid
  refine Refines.single (by simp [finish]) ?_ hview ?_
  · have hsame : (finish w s pid).slot = s.slot := by
      funext d'
      cases d' <;> rfl
    have hqueue : (finish w s pid).queue = s.queue := by
      funext d'
      cases d' <;> rfl
    rw [release_slot_eq d hsame, release_queue, hqueue]
    exact hplaced.leave hslot (Or.inr rfl)
  · rw [hplace]
    exact Move.finish hrest

/-- The burst on `d` is over and the next one is queued at the other device. -/
theorem requeue_refines (hplaced : Placed s.queue s.slot place) {d : Device} {pid burst : Nat}
    {rest : List Nat} (hslot : s.slot d = some ((pid : Int), 0))
    (hrest : s.process pid = burst :: rest) {q : List (Nat × Nat)}
    (hq : q.Perm ((burst, pid) :: s.queue d.other)) (htime : s'.time = s.time)
    (hsame : s'.slot = s.slot) (hqueue : s'.queue = Function.update s.queue d.other q)
    (hview : s'.view = Function.update s.view pid { s.view pid with rest := rest }) :
    Refines w (s.time + 1) s place (s'.release d)
      (Function.update place pid (.waiting d.other burst)) := by
  have hplace : place pid = .on d 0 := (hplaced.on d pid 0).1 hslot
  refine Refines.single (by simp [htime]) ?_ (by rw [release_view, hview]) ?_
  · -- The process first leaves the device and then enters the queue.
    have hleave := (hplaced.leave hslot (Or.inl rfl)).enter d.other (by simp) hq
    rw [release_slot_eq d hsame, release_queue, hqueue]
    simpa using hleave
  · rw [hplace]
    exact Move.requeue hrest

/-- What the completion of device `d` does to the rest of the state: `b` still has the flag set. -/
structure Completed (w : Workload) (d : Device) (s : SimState) (place : Nat → Place)
    (b : SimState) (place' : Nat → Place) : Prop where
  refines : Refines w (s.time + 1) s place (b.release d) place'
  away : ∀ p, place' p = .away ↔ place p = .away
  slot : b.slot = s.slot
  ended : ∃ pid, place pid = .on d 0
  empties : queuesEmpty b = true → queuesEmpty s = true

theorem finish_completed (hplaced : Placed s.queue s.slot place) {d : Device} {pid : Nat}
    (hslot : s.slot d = some ((pid : Int), 0)) (hrest : s.process pid = []) :
    Completed w d s place (finish w s pid) (Function.update place pid .finished) where
  refines := finish_refines hplaced hslot hrest
  away := by
    have hplace : place pid = .on d 0 := (hplaced.on d pid 0).1 hslot
    exact update_eq_away_iff (by simp [hplace]) (by simp)
  slot := by
    funext d'
    cases d' <;> rfl
  ended := ⟨pid, (hplaced.on d pid 0).1 hslot⟩
  empties := id

theorem ioBurstOver_completed (hplaced : Placed s.queue s.slot place) {pid : Nat}
    (hslot : s.slot .io = some ((pid : Int), 0)) :
    ∃ place', Completed w .io s place (ioBurstOver w s) place' := by
  have hplace : place pid = .on .io 0 := (hplaced.on .io pid 0).1 hslot
  have hpid : s.ioongoingpid.toNat = pid := by
    by_cases hbusy : s.ioprocessgoingon = true
    · have : s.ioongoingpid = pid ∧ s.iowaitprocessgoingon = 0 := by
        simpa [SimState.slot, hbusy] using hslot
      simp [this.1]
    · simp [SimState.slot, hbusy] at hslot
  cases hrest : s.process pid with
  | nil =>
      have hover : ioBurstOver w s = finish w s pid := by simp [ioBurstOver, hpid, hrest]
      rw [hover]
      exact ⟨_, finish_completed hplaced hslot hrest⟩
  | cons burst rest =>
      have hover : ioBurstOver w s = toReady s pid burst rest := by
        simp [ioBurstOver, hpid, hrest]
      rw [hover]
      refine ⟨_, requeue_refines hplaced hslot hrest (push_perm (burst, pid) s.pq) rfl
        (toReady_slot s pid burst rest) (toReady_queue s pid burst rest)
        (toReady_view s pid burst rest), update_eq_away_iff (by simp [hplace]) (by simp),
        toReady_slot s pid burst rest, ⟨pid, hplace⟩, ?_⟩
      -- The ready queue has just got an entry, so the `break` is not taken.
      intro hempty
      have hlen := (push_perm (burst, pid) s.pq).length_eq
      have hnil : push (burst, pid) s.pq = [] := by
        simpa [queuesEmpty, toReady] using (Bool.and_eq_true_iff.1 hempty).1
      simp [hnil] at hlen

theorem cpuBurstOver_completed (hplaced : Placed s.queue s.slot place) {pid : Nat}
    (hslot : s.slot .cpu = some ((pid : Int), 0)) :
    ∃ place', Completed w .cpu s place (cpuBurstOver w s) place' := by
  have hplace : place pid = .on .cpu 0 := (hplaced.on .cpu pid 0).1 hslot
  have hpid : s.ongoingpid.toNat = pid := by
    by_cases hbusy : s.processgoingon = true
    · have : s.ongoingpid = pid ∧ s.waitprocessgoingon = 0 := by
        simpa [SimState.slot, hbusy] using hslot
      simp [this.1]
    · simp [SimState.slot, hbusy] at hslot
  cases hrest : s.process pid with
  | nil =>
      have hover : cpuBurstOver w s = finish w s pid := by simp [cpuBurstOver, hpid, hrest]
      rw [hover]
      exact ⟨_, finish_completed hplaced hslot hrest⟩
  | cons burst rest =>
      have hover : cpuBurstOver w s = toIo s pid burst rest := by
        simp [cpuBurstOver, hpid, hrest]
      rw [hover]
      refine ⟨_, requeue_refines hplaced hslot hrest
        (List.perm_append_singleton (burst, pid) s.ioq) rfl
        (toIo_slot s pid burst rest) (toIo_queue s pid burst rest)
        (toIo_view s pid burst rest), update_eq_away_iff (by simp [hplace]) (by simp),
        toIo_slot s pid burst rest, ⟨pid, hplace⟩, ?_⟩
      -- The I/O queue has just got an entry, so the `break` is not taken.
      intro hempty
      simp [queuesEmpty, toIo] at hempty

/-- The completion block of the I/O device: nothing, a `break`, or a released device. -/
theorem ioComplete_cases (hplaced : Placed s.queue s.slot place) :
    (ioComplete w s = .inl s ∧ ∀ p, place p ≠ .on .io 0) ∨
      ∃ b place', Completed w .io s place b place' ∧
        ioComplete w s = if queuesEmpty b then .inr b else .inl (b.release .io) := by
  by_cases hover : s.ioprocessgoingon = true ∧ s.iowaitprocessgoingon = 0
  · right
    have hslot : s.slot .io = some (s.ioongoingpid, 0) := by simp [SimState.slot, hover]
    rcases hplaced.named _ _ _ hslot with ⟨pid, hpid⟩
    rcases ioBurstOver_completed (w := w) hplaced (hpid ▸ hslot) with ⟨place', hcompleted⟩
    exact ⟨ioBurstOver w s, place', hcompleted, by simp [ioComplete, hover, SimState.release]⟩
  · left
    refine ⟨?_, ?_⟩
    · have : (s.ioprocessgoingon && s.iowaitprocessgoingon == 0) = false := by
        simpa using hover
      simp [ioComplete, this]
    · intro p hon
      refine hover ?_
      have hslot := (hplaced.on .io p 0).2 hon
      by_cases hbusy : s.ioprocessgoingon = true
      · have : s.ioongoingpid = p ∧ s.iowaitprocessgoingon = 0 := by
          simpa [SimState.slot, hbusy] using hslot
        exact ⟨hbusy, this.2⟩
      · simp [SimState.slot, hbusy] at hslot

theorem cpuComplete_cases (hplaced : Placed s.queue s.slot place) :
    (cpuComplete w s = .inl s ∧ ∀ p, place p ≠ .on .cpu 0) ∨
      ∃ b place', Completed w .cpu s place b place' ∧
        cpuComplete w s = if queuesEmpty b then .inr b else .inl (b.release .cpu) := by
  by_cases hover : s.processgoingon = true ∧ s.waitprocessgoingon = 0
  · right
    have hslot : s.slot .cpu = some (s.ongoingpid, 0) := by simp [SimState.slot, hover]
    rcases hplaced.named _ _ _ hslot with ⟨pid, hpid⟩
    rcases cpuBurstOver_completed (w := w) hplaced (hpid ▸ hslot) with ⟨place', hcompleted⟩
    exact ⟨cpuBurstOver w s, place', hcompleted, by simp [cpuComplete, hover, SimState.release]⟩
  · left
    refine ⟨?_, ?_⟩
    · have : (s.processgoingon && s.waitprocessgoingon == 0) = false := by
        simpa using hover
      simp [cpuComplete, this]
    · intro p hon
      refine hover ?_
      have hslot := (hplaced.on .cpu p 0).2 hon
      by_cases hbusy : s.processgoingon = true
      · have : s.ongoingpid = p ∧ s.waitprocessgoingon = 0 := by
          simpa [SimState.slot, hbusy] using hslot
        exact ⟨hbusy, this.2⟩
      · simp [SimState.slot, hbusy] at hslot

end Blocks

end Sjf
end OsLab
