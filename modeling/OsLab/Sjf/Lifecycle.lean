import Mathlib

/-!
# Lifecycle — one process on two serial devices

What the scheduler is for, told from the side of one process: it arrives with a list of bursts, each
burst waits in the queue of a device and is then served there without interruption, even bursts by
the CPU and odd bursts by the I/O device, and after the last burst the process is finished.

A process is a `View` (its bursts still to be queued, its services so far, its counters) at a
`Place`.  `Move` lists what can happen to it at one instant; `Life` is the invariant.  Nothing here
mentions queues, slots or other processes: the simulator is connected in `Sjf/Refinement.lean`.
-/

namespace OsLab
namespace Sjf

inductive Device
  | cpu
  | io
  deriving DecidableEq, Repr

def Device.other : Device → Device
  | .cpu => .io
  | .io => .cpu

theorem Device.eq_other_of_ne {d d' : Device} (h : d' ≠ d) : d' = d.other := by
  cases d <;> cases d' <;> simp_all [Device.other]

/-- The device that serves the `k`-th burst. -/
def deviceFor (k : Nat) : Device :=
  if k % 2 = 0 then .cpu else .io

theorem deviceFor_succ (k : Nat) : deviceFor (k + 1) = (deviceFor k).other := by
  rcases Nat.mod_two_eq_zero_or_one k with h | h
  · have h' : (k + 1) % 2 = 1 := by omega
    simp [deviceFor, h, h', Device.other]
  · have h' : (k + 1) % 2 = 0 := by omega
    simp [deviceFor, h, h', Device.other]

/-- One uninterrupted service: the device is occupied in the ticks from `start` to `finish - 1`. -/
structure Service where
  device : Device
  start : Nat
  length : Nat
  deriving DecidableEq, Repr

def Service.finish (r : Service) : Nat :=
  r.start + r.length

def cpuTime (services : List Service) : Nat :=
  ((services.filter (fun r => r.device = .cpu)).map Service.length).sum

def totalTime (services : List Service) : Nat :=
  (services.map Service.length).sum

/-- Where a process is.  `on d left` has `left` ticks of the burst to go. -/
inductive Place
  | away
  | waiting (d : Device) (burst : Nat)
  | on (d : Device) (left : Nat)
  | finished
  deriving DecidableEq, Repr

def Place.countdown : Place → Place
  | .on d left => .on d (left - 1)
  | pl => pl

/-- The data of one process: `rest` is its queue `process[pid]`. -/
structure View where
  services : List Service
  rest : List Nat
  ptime : Int
  btime : Int
  rtime : Int
  tr : Int
  wait : Int

/-- A burst starts: the service is noted and the counters go up. -/
def View.started (v : View) (arrival now : Nat) (d : Device) (burst : Nat) : View :=
  { v with
    services := v.services ++ [⟨d, now, burst⟩]
    ptime := v.ptime + burst
    btime := if d = .cpu then v.btime + burst else v.btime
    rtime := if d = .cpu ∧ v.rtime = -1 then (now : Int) - arrival else v.rtime }

/-- The last burst is over: turnaround and waiting time are noted. -/
def View.completed (v : View) (arrival now : Nat) : View :=
  { v with
    tr := (now : Int) - arrival
    wait := (now : Int) - arrival - v.ptime }

/-! ## Moves -/

/-- What can happen to a process at the instant `now`. -/
inductive Move (arrival now : Nat) : View × Place → View × Place → Prop
  | enter {v : View} {burst : Nat} {rest : List Nat} (hnow : now = arrival)
      (hrest : v.rest = burst :: rest) :
      Move arrival now (v, .away) ({ v with rest := rest }, .waiting .cpu burst)
  | start {v : View} {d : Device} {burst : Nat} :
      Move arrival now (v, .waiting d burst) (v.started arrival now d burst, .on d burst)
  | requeue {v : View} {d : Device} {burst : Nat} {rest : List Nat}
      (hrest : v.rest = burst :: rest) :
      Move arrival now (v, .on d 0) ({ v with rest := rest }, .waiting d.other burst)
  | finish {v : View} {d : Device} (hrest : v.rest = []) :
      Move arrival now (v, .on d 0) (v.completed arrival now, .finished)

/-- Any number of moves at one instant. -/
abbrev Moves (arrival now : Nat) : View × Place → View × Place → Prop :=
  Relation.ReflTransGen (Move arrival now)

/-! ## The invariant -/

/-- Served, waiting and remaining bursts are the original ones, each on its own device. -/
def Accounted (bursts served rest : List Nat) : Place → Prop
  | .away => served = [] ∧ rest = bursts
  | .waiting d burst => served ++ burst :: rest = bursts ∧ d = deviceFor served.length
  | .on d _ => served ++ rest = bursts ∧ d.other = deviceFor served.length
  | .finished => served = bursts ∧ rest = []

/-- All services are over at `now`, except the current one of a process on a device. -/
def Timed (now : Nat) (services : List Service) : Place → Prop
  | .on d left => ∃ past start length, services = past ++ [⟨d, start, length⟩] ∧
      start + length = now + left ∧ left ≤ length ∧ ∀ r ∈ past, r.finish ≤ now
  | _ => ∀ r ∈ services, r.finish ≤ now

/-- The counters written when the process finishes. -/
def Recorded (arrival : Nat) (v : View) : Place → Prop
  | .finished => (∃ past r, v.services = past ++ [r] ∧ v.tr = (r.finish : Int) - arrival) ∧
      v.wait = v.tr - v.ptime
  | _ => v.tr = 0 ∧ v.wait = 0

structure Life (arrival : Nat) (bursts : List Nat) (now : Nat) (v : View) (pl : Place) : Prop where
  accounted : Accounted bursts (v.services.map Service.length) v.rest pl
  alternates : ∀ k r, v.services[k]? = some r → r.device = deviceFor k
  ordered : v.services.Pairwise (fun r r' => r.finish ≤ r'.start)
  present : pl ≠ .away → arrival ≤ now
  started : ∀ r ∈ v.services, arrival ≤ r.start
  timed : Timed now v.services pl
  ptime : v.ptime = totalTime v.services
  btime : v.btime = cpuTime v.services
  rtime : v.rtime = (v.services.head?.elim (-1) fun r => (r.start : Int) - arrival)
  recorded : Recorded arrival v pl

/-- A burst with no ticks to go is over. -/
theorem timed_over {now : Nat} {services : List Service} {d : Device}
    (h : Timed now services (.on d 0)) : ∀ r ∈ services, r.finish ≤ now := by
  rcases h with ⟨past, start, length, hs, hend, _, hpast⟩
  intro r hr
  rw [hs] at hr
  rcases List.mem_append.1 hr with hr | hr
  · exact hpast r hr
  · have hr' : r = ⟨d, start, length⟩ := by simpa using hr
    subst hr'
    exact Nat.le_of_eq hend

section Life

variable {arrival now : Nat} {bursts : List Nat} {v : View}

theorem Life.init (arrival : Nat) (bursts : List Nat) (now : Nat) :
    Life arrival bursts now ⟨[], bursts, 0, 0, -1, 0, 0⟩ .away where
  accounted := ⟨rfl, rfl⟩
  alternates := by simp
  ordered := List.Pairwise.nil
  present := fun h => absurd rfl h
  started := by simp
  timed := by simp [Timed]
  ptime := rfl
  btime := rfl
  rtime := rfl
  recorded := ⟨rfl, rfl⟩

theorem Life.enter (h : Life arrival bursts now v .away) (hnow : now = arrival) {burst : Nat}
    {rest : List Nat} (hrest : v.rest = burst :: rest) :
    Life arrival bursts now { v with rest := rest } (.waiting .cpu burst) where
  accounted := by
    have hserved : v.services.map Service.length = [] := h.accounted.1
    refine ⟨?_, by simp [hserved, deviceFor]⟩
    simpa [hserved, hrest] using h.accounted.2
  alternates := h.alternates
  ordered := h.ordered
  present := fun _ => Nat.le_of_eq hnow.symm
  started := h.started
  timed := h.timed
  ptime := h.ptime
  btime := h.btime
  rtime := h.rtime
  recorded := h.recorded

/-- The service that starts now is the last one, and it is on the device the burst waits for. -/
theorem Life.start {d : Device} {burst : Nat} (h : Life arrival bursts now v (.waiting d burst)) :
    Life arrival bursts now (v.started arrival now d burst) (.on d burst) where
  accounted := by
    refine ⟨by simpa [View.started] using h.accounted.1, ?_⟩
    have hd : d = deviceFor v.services.length := by simpa using h.accounted.2
    simp [View.started, deviceFor_succ, ← hd]
  alternates := by
    intro k r hk
    have hd : d = deviceFor v.services.length := by simpa using h.accounted.2
    rcases Nat.lt_trichotomy k v.services.length with hlt | heq | hgt
    · exact h.alternates k r (by simpa [View.started, List.getElem?_append_left hlt] using hk)
    · subst heq
      have hr : (⟨d, now, burst⟩ : Service) = r := by simpa [View.started] using hk
      simp [← hr, ← hd]
    · simp [View.started, Nat.not_le.2 hgt] at hk
  ordered := by
    refine List.pairwise_append.2 ⟨h.ordered, List.pairwise_singleton _ _, ?_⟩
    intro r hr r' hr'
    have hstart : r' = ⟨d, now, burst⟩ := by simpa using hr'
    subst hstart
    exact h.timed r hr
  present := fun _ => h.present (by simp)
  started := by
    intro r hr
    rcases List.mem_append.1 hr with hr | hr
    · exact h.started r hr
    · have hr' : r = ⟨d, now, burst⟩ := by simpa using hr
      subst hr'
      exact h.present (by simp)
  timed := ⟨v.services, now, burst, rfl, rfl, Nat.le_refl _, h.timed⟩
  ptime := by simp [View.started, h.ptime, totalTime]
  btime := by
    cases d with
    | cpu => simp [View.started, h.btime, cpuTime]
    | io => simp [View.started, h.btime, cpuTime]
  rtime := by
    cases hs : v.services with
    | nil =>
        -- The first service: burst number zero goes to the CPU.
        have hd : d = .cpu := by simpa [hs, deviceFor] using h.accounted.2
        have hr : v.rtime = -1 := by simpa [hs] using h.rtime
        simp [View.started, hs, hd, hr]
    | cons r rs =>
        have hr : v.rtime = (r.start : Int) - arrival := by simpa [hs] using h.rtime
        have hle : arrival ≤ r.start := h.started r (by simp [hs])
        have hne : ¬ (d = .cpu ∧ v.rtime = -1) := fun hc => by omega
        have hsame : (v.started arrival now d burst).rtime = v.rtime := if_neg hne
        rw [hsame, hr]
        simp [View.started, hs]
  recorded := h.recorded

theorem Life.requeue {d : Device} (h : Life arrival bursts now v (.on d 0)) {burst : Nat}
    {rest : List Nat} (hrest : v.rest = burst :: rest) :
    Life arrival bursts now { v with rest := rest } (.waiting d.other burst) where
  accounted := by simpa [Accounted, hrest] using h.accounted
  alternates := h.alternates
  ordered := h.ordered
  present := fun _ => h.present (by simp)
  started := h.started
  timed := timed_over h.timed
  ptime := h.ptime
  btime := h.btime
  rtime := h.rtime
  recorded := h.recorded

theorem Life.finish {d : Device} (h : Life arrival bursts now v (.on d 0)) (hrest : v.rest = []) :
    Life arrival bursts now (v.completed arrival now) .finished where
  accounted := by simpa [Accounted, View.completed, hrest] using h.accounted.1
  alternates := h.alternates
  ordered := h.ordered
  present := fun _ => h.present (by simp)
  started := h.started
  timed := timed_over h.timed
  ptime := h.ptime
  btime := h.btime
  rtime := h.rtime
  recorded := by
    rcases h.timed with ⟨past, start, length, hs, hend, _, _⟩
    refine ⟨⟨past, ⟨d, start, length⟩, hs, ?_⟩, rfl⟩
    have hnow : start + length = now := hend
    simp [View.completed, Service.finish, ← hnow]

/-- One tick passes: everyone on a device has a tick less to go. -/
theorem Life.advance {pl : Place} (h : Life arrival bursts now v pl)
    (hleft : ∀ d left, pl = .on d left → 1 ≤ left) :
    Life arrival bursts (now + 1) v pl.countdown := by
  have hlate : ∀ {services : List Service}, (∀ r ∈ services, r.finish ≤ now) →
      ∀ r ∈ services, r.finish ≤ now + 1 := fun hs r hr => Nat.le_succ_of_le (hs r hr)
  have hpresent : pl.countdown ≠ .away → arrival ≤ now + 1 := fun hne =>
    Nat.le_succ_of_le (h.present fun heq => hne (by simp [heq, Place.countdown]))
  cases pl with
  | away =>
      exact { h with timed := hlate h.timed, present := hpresent }
  | waiting d burst =>
      exact { h with timed := hlate h.timed, present := hpresent }
  | finished =>
      exact { h with timed := hlate h.timed, present := hpresent }
  | on d left =>
      have hpos : 1 ≤ left := hleft d left rfl
      rcases h.timed with ⟨past, start, length, hs, hend, hle, hpast⟩
      refine { h with present := hpresent, timed := ⟨past, start, length, hs, ?_, ?_, hlate hpast⟩ }
      · omega
      · omega

theorem Life.move {v' : View} {pl pl' : Place} (hm : Move arrival now (v, pl) (v', pl'))
    (h : Life arrival bursts now v pl) : Life arrival bursts now v' pl' := by
  cases hm with
  | enter hnow hrest => exact h.enter hnow hrest
  | start => exact h.start
  | requeue hrest => exact h.requeue hrest
  | finish hrest => exact h.finish hrest

theorem Life.moves {x y : View × Place} (hm : Moves arrival now x y) :
    Life arrival bursts now x.1 x.2 → Life arrival bursts now y.1 y.2 := by
  induction hm with
  | refl => exact id
  | tail _ hstep ih => exact fun h => Life.move hstep (ih h)

end Life

/-! ## Work -/

/-- Ticks of service a process still needs. -/
def need (x : View × Place) : Nat :=
  match x.2 with
  | .waiting _ burst => burst + x.1.rest.sum
  | .on _ left => left + x.1.rest.sum
  | _ => x.1.rest.sum

section Moves

variable {arrival now : Nat} {x y : View × Place}

/-- Moving costs no work: only the ticks on a device do. -/
theorem Moves.need_eq (hm : Moves arrival now x y) : need y = need x := by
  induction hm with
  | refl => rfl
  | tail _ hstep ih =>
      rw [← ih]
      cases hstep with
      | enter hnow hrest => simp [need, hrest]
      | start => rfl
      | requeue hrest => simp [need, hrest]
      | finish hrest => simp [need, View.completed]

theorem need_countdown_le (v : View) (pl : Place) : need (v, pl.countdown) ≤ need (v, pl) := by
  cases pl with
  | on d left => exact Nat.add_le_add_right (Nat.sub_le left 1) _
  | away => exact Nat.le_refl _
  | waiting d burst => exact Nat.le_refl _
  | finished => exact Nat.le_refl _

theorem need_countdown_lt (v : View) {d : Device} {left : Nat} (hleft : 1 ≤ left) :
    need (v, (Place.on d left).countdown) < need (v, .on d left) :=
  Nat.add_lt_add_right (Nat.sub_lt hleft Nat.one_pos) _

theorem Moves.not_away (hm : Moves arrival now x y) : x.2 ≠ .away → y.2 ≠ .away := by
  induction hm with
  | refl => exact id
  | tail _ hstep ih =>
      intro hx
      cases hstep with
      | enter hnow hrest => simp
      | start => simp
      | requeue hrest => simp
      | finish hrest => simp

/-- While every burst on a device has ticks to go, nobody leaves a device, so nobody finishes. -/
theorem Moves.running {bursts : List Nat} (hpos : ∀ b ∈ bursts, 1 ≤ b)
    (hm : Moves arrival now x y) (hlife : Life arrival bursts now x.1 x.2)
    (hx : ∀ d left, x.2 = .on d left → 1 ≤ left) :
    (∀ d left, y.2 = .on d left → 1 ≤ left) ∧ (x.2 ≠ .finished → y.2 ≠ .finished) := by
  induction hm with
  | refl => exact ⟨hx, id⟩
  | tail hprefix hstep ih =>
      have hmid := Life.moves hprefix hlife
      cases hstep with
      | enter hnow hrest => exact ⟨by simp, by simp⟩
      | requeue hrest => exact absurd (ih.1 _ 0 rfl) (by simp)
      | finish hrest => exact absurd (ih.1 _ 0 rfl) (by simp)
      | @start v d burst =>
          refine ⟨?_, by simp⟩
          intro d' left heq
          have hleft : burst = left := by simpa using (Place.on.inj heq).2
          subst hleft
          apply hpos
          have hsplit : v.services.map Service.length ++ burst :: v.rest = bursts :=
            hmid.accounted.1
          simp [← hsplit]

/-- The services of an instant are appended to the earlier ones. -/
theorem Moves.services_eq (hm : Moves arrival now x y) :
    ∃ fresh, y.1.services = x.1.services ++ fresh ∧ ∀ r ∈ fresh, r.start = now := by
  induction hm with
  | refl => exact ⟨[], by simp, by simp⟩
  | tail _ hstep ih =>
      rcases ih with ⟨fresh, heq, hfresh⟩
      cases hstep with
      | enter hnow hrest => exact ⟨fresh, heq, hfresh⟩
      | requeue hrest => exact ⟨fresh, heq, hfresh⟩
      | finish hrest => exact ⟨fresh, heq, hfresh⟩
      | @start v d burst =>
          have happend : v.services = x.1.services ++ fresh := heq
          refine ⟨fresh ++ [⟨d, now, burst⟩], by simp [View.started, happend], ?_⟩
          intro r hr
          rcases List.mem_append.1 hr with hr | hr
          · exact hfresh r hr
          · have hr' : r = ⟨d, now, burst⟩ := by simpa using hr
            simp [hr']

end Moves

end Sjf
end OsLab
