import OsLab.Sjf.Conservation

/-!
# Exit — when the event loop stops, and with what

The loop stops at a completion that leaves both queues empty.  It always gets there: once a process
has arrived somebody is in the system at the top of every tick (`Active`), so each tick either lets
time pass before the last arrival or takes a tick off the work that is left.

The test does not look at the other device or at the arrivals to come.  `sjf_complete_iff` says when
that does no harm.
-/

namespace OsLab
namespace Sjf

open OsLab.Lib

/-! ## Somebody is in the system -/

/-- Some process has arrived and is not finished. -/
def Active (place : Nat → Place) : Prop :=
  ∃ p, place p ≠ .away ∧ place p ≠ .finished

section Active

variable {w : Workload} {s s' m b : SimState} {place place' placeM : Nat → Place} {d : Device}

/-- Whoever is active during a tick, some device serves. -/
theorem Serving.served (hm : Serving w s place m placeM) (hactive : Active placeM) :
    ∃ p d left, placeM p = .on d left := by
  rcases hactive with ⟨p, haway, hfin⟩
  cases hplace : placeM p with
  | away => exact absurd hplace haway
  | finished => exact absurd hplace hfin
  | on d left => exact ⟨p, d, left, hplace⟩
  | waiting d burst =>
      -- A waiting process means a busy device.
      have hmem : (burst, p) ∈ m.queue d := (hm.refines.placed.waiting d burst p).2 hplace
      cases hslot : m.slot d with
      | none => simp [hm.busy d hslot] at hmem
      | some x =>
          rcases x with ⟨i, left⟩
          rcases hm.refines.placed.named d i left hslot with ⟨p', rfl⟩
          exact ⟨p', d, left, (hm.refines.placed.on d p' left).1 hslot⟩

/-- After the arrivals of a tick the system is active if anybody has arrived so far. -/
theorem Serving.active (h : SimInv w s place) (hm : Serving w s place m placeM)
    (hold : (∃ p, p < w.length ∧ w.ptot p < s.time) → Active place)
    (harrived : ∃ p, p < w.length ∧ w.ptot p ≤ s.time) : Active placeM := by
  have hkeep : ∀ p, place p ≠ .finished → placeM p ≠ .finished := fun p => (hm.running h p).2
  rcases harrived with ⟨p, hp, hle⟩
  have haway : placeM p ≠ .away := fun heq => (hm.away p).1 heq ⟨hp, hle⟩
  rcases Nat.lt_or_eq_of_le hle with hlt | heq
  · rcases hold ⟨p, hp, hlt⟩ with ⟨q, hq, hqfin⟩
    exact ⟨q, Moves.not_away (hm.refines.moves q) hq, hkeep q hqfin⟩
  · -- The process arrives in this very tick.
    have hplace : place p = .away := (h.away p).2 fun harr => by
      rw [heq] at harr
      exact absurd harr.2 (Nat.lt_irrefl _)
    exact ⟨p, haway, hkeep p (by simp [hplace])⟩

theorem queuesEmpty_iff (s : SimState) : queuesEmpty s = true ↔ ∀ d, s.queue d = [] := by
  constructor
  · intro h d
    have hboth : s.pq = [] ∧ s.ioq = [] := by simpa [queuesEmpty] using h
    cases d with
    | cpu => exact hboth.1
    | io => exact hboth.2
  · intro h
    have hpq : s.pq = [] := h .cpu
    have hioq : s.ioq = [] := h .io
    simp [queuesEmpty, hpq, hioq]

/-- A tick that goes round again leaves somebody in the system. -/
theorem Continued.active (hm : Serving w s place m placeM) (hc : Continued w m placeM s' place')
    (hactive : Active placeM) : Active place' := by
  rcases hc.occupied with hslot | hempty
  · -- No completion: the process that was served is still on its device.
    rcases hm.served hactive with ⟨p, d, left, hon⟩
    have hbefore : m.slot d = some ((p : Int), left) := (hm.refines.placed.on d p left).2 hon
    have hafter : s'.slot d = some ((p : Int), left - 1) := by
      rw [hslot, countdown_slot]
      simp [hbefore]
    have hplace : place' p = .on d (left - 1) := (hc.inv.placed.on d p _).1 hafter
    exact ⟨p, by simp [hplace], by simp [hplace]⟩
  · have hne : ∃ d, s'.queue d ≠ [] := by
      by_contra hall
      have hnil : ∀ d, s'.queue d = [] := fun d => by_contra fun hd => hall ⟨d, hd⟩
      rw [(queuesEmpty_iff s').2 hnil] at hempty
      exact absurd hempty (by simp)
    rcases hne with ⟨d, hd⟩
    rcases List.exists_mem_of_ne_nil _ hd with ⟨⟨burst, p⟩, hmem⟩
    have hplace : place' p = .waiting d burst := (hc.inv.placed.waiting d burst p).1 hmem
    exact ⟨p, by simp [hplace], by simp [hplace]⟩

end Active

/-! ## Termination -/

/-- The work left in the system and in the arrivals to come. -/
def workLeft (w : Workload) (s : SimState) (place : Nat → Place) : Nat :=
  ∑ p ∈ Finset.range w.length, need (s.view p, place p)

/-- A tick after which every process has arrived. -/
def horizon (w : Workload) : Nat :=
  (Finset.range w.length).sup w.ptot

def budget (w : Workload) (s : SimState) (place : Nat → Place) : Nat :=
  (horizon w + 1 - s.time) + workLeft w s place

section Termination

variable {w : Workload} {s s' m : SimState} {place place' placeM : Nat → Place}

theorem Continued.need_le (hm : Serving w s place m placeM) (hc : Continued w m placeM s' place')
    (p : Nat) : need (s'.view p, place' p) ≤ need (s.view p, place p) := by
  calc
    need (s'.view p, place' p) = need (m.view p, (placeM p).countdown) := (hc.moves p).need_eq
    _ ≤ need (m.view p, placeM p) := need_countdown_le (m.view p) (placeM p)
    _ = need (s.view p, place p) := (hm.refines.moves p).need_eq

theorem Continued.need_lt (h : SimInv w s place) (hm : Serving w s place m placeM)
    (hc : Continued w m placeM s' place') {p left : Nat} {d : Device}
    (hon : placeM p = .on d left) : need (s'.view p, place' p) < need (s.view p, place p) := by
  have hpos : 1 ≤ left := (hm.running h p).1 d left hon
  calc
    need (s'.view p, place' p) = need (m.view p, (placeM p).countdown) := (hc.moves p).need_eq
    _ < need (m.view p, placeM p) := by
      rw [hon]
      exact need_countdown_lt (m.view p) hpos
    _ = need (s.view p, place p) := (hm.refines.moves p).need_eq

/-- Every tick that goes round again uses up the budget: before the horizon time passes, and behind
it some device takes a tick off the work. -/
theorem Continued.budget_lt (h : SimInv w s place) (hm : Serving w s place m placeM)
    (hc : Continued w m placeM s' place') (hactive : horizon w < s.time → Active placeM) :
    budget w s' place' < budget w s place := by
  have htime : s'.time = s.time + 1 := by rw [hc.time, hm.refines.time]
  have hle : workLeft w s' place' ≤ workLeft w s place :=
    Finset.sum_le_sum fun p _ => hc.need_le hm p
  by_cases hlate : horizon w < s.time
  · rcases hm.served (hactive hlate) with ⟨p, d, left, hon⟩
    have hp : p < w.length := by
      by_contra hp
      have haway : placeM p = .away := (hm.away p).2 fun harr => hp harr.1
      simp [hon] at haway
    have hlt : workLeft w s' place' < workLeft w s place :=
      Finset.sum_lt_sum (fun q _ => hc.need_le hm q) ⟨p, Finset.mem_range.2 hp, hc.need_lt h hm hon⟩
    simp only [budget]
    omega
  · simp only [budget]
    omega

theorem ptot_le_horizon {p : Nat} (hp : p < w.length) : w.ptot p ≤ horizon w :=
  Finset.le_sup (f := w.ptot) (Finset.mem_range.2 hp)

/-- From every state at the top of a tick the loop reaches a `break` within the budget. -/
theorem exists_stop (hne : w ≠ []) :
    ∀ (k t : Nat) (s : SimState) (place : Nat → Place), topOf w t = some s → SimInv w s place →
      ((∃ p, p < w.length ∧ w.ptot p < s.time) → Active place) → budget w s place ≤ k →
      ∃ t' s' b, t' ≤ t + k ∧ topOf w t' = some s' ∧ tick w s' = some (.inr b) := by
  intro k
  induction k using Nat.strong_induction_on with
  | _ k ih =>
      intro t s place htop hinv hactive hk
      rcases hinv.serving with ⟨m, placeM, hserving, hm⟩
      rcases hinv.tick hserving hm with ⟨s', place', htick, hc⟩ | ⟨d, b, place', htick, _⟩
      · have hlater : horizon w < s.time → Active placeM := by
          intro hlate
          have hpos : 0 < w.length := List.length_pos_iff.2 hne
          have hle : w.ptot 0 ≤ s.time := (ptot_le_horizon hpos).trans (Nat.le_of_lt hlate)
          exact hm.active hinv hactive ⟨0, hpos, hle⟩
        have hlt := hc.budget_lt hinv hm hlater
        have hnext : (∃ p, p < w.length ∧ w.ptot p < s'.time) → Active place' := by
          rintro ⟨p, hp, harr⟩
          rw [hc.time, hm.refines.time] at harr
          exact hc.active hm (hm.active hinv hactive ⟨p, hp, Nat.lt_succ_iff.1 harr⟩)
        rcases ih (budget w s' place') (Nat.lt_of_lt_of_le hlt hk) (t + 1) s' place'
          (topOf_succ.2 ⟨s, htop, htick⟩) hc.inv hnext (Nat.le_refl _) with
          ⟨t', s'', b, hbound, hstop⟩
        exact ⟨t', s'', b, by omega, hstop⟩
      · exact ⟨t, s, b, Nat.le_add_right t k, htop, htick⟩

/-- The loop from the start is the loop from the top of a later tick. -/
theorem startEvent_eq_loop : ∀ (t k : Nat) {s : SimState}, topOf w t = some s →
    startEvent w (t + k) = loop (tick w) k s
  | 0, k, s, h => by
      have hs : SimState.init w = s := by simpa [topOf] using h
      rw [Nat.zero_add, ← hs]
      rfl
  | t + 1, k, s', h => by
      rcases topOf_succ.1 h with ⟨s, htop, htick⟩
      have hrec := startEvent_eq_loop t (k + 1) htop
      rw [loop_again k htick] at hrec
      rw [← hrec, Nat.succ_add_eq_add_succ]

/-- The ticks the loop may take: the arrivals to wait for and the bursts to serve. -/
def tickBound (w : Workload) : Nat :=
  horizon w + 1 + ∑ p ∈ Finset.range w.length, (w.bursts p).sum

theorem exists_stop_init (hne : w ≠ []) :
    ∃ t s b, t ≤ tickBound w ∧ topOf w t = some s ∧ tick w s = some (.inr b) := by
  have hactive : (∃ p, p < w.length ∧ w.ptot p < (SimState.init w).time) →
      Active fun _ => Place.away := by
    rintro ⟨p, _, hlt⟩
    exact absurd hlt (Nat.not_lt_zero _)
  have hbudget : budget w (SimState.init w) (fun _ => .away) ≤ tickBound w := Nat.le_refl _
  rcases exists_stop hne _ 0 (SimState.init w) (fun _ => .away) rfl (SimInv.init w) hactive hbudget
    with ⟨t, s, b, hbound, hstop⟩
  exact ⟨t, s, b, by rwa [Nat.zero_add] at hbound, hstop⟩

/-- A tick that breaks is the last one, with any fuel beyond it. -/
theorem startEvent_of_stop {t : Nat} {b : SimState} (htop : topOf w t = some s)
    (htick : tick w s = some (.inr b)) (k : Nat) : startEvent w (t + (k + 1)) = some b := by
  rw [startEvent_eq_loop t (k + 1) htop]
  exact loop_exit k htick

theorem startEvent_terminates (hne : w ≠ []) : ∃ fuel b, startEvent w fuel = some b := by
  rcases exists_stop_init hne with ⟨t, s, b, _, htop, htick⟩
  exact ⟨t + 1, b, startEvent_of_stop htop htick 0⟩

/-- A result of the loop is the state at the `break` of a tick that is reached. -/
theorem startEvent_stop {fuel : Nat} {b : SimState} (h : startEvent w fuel = some b) :
    ∃ t s, topOf w t = some s ∧ tick w s = some (.inr b) := by
  refine loop_partial (fun s => ∃ t, topOf w t = some s)
    (fun b => ∃ t s, topOf w t = some s ∧ tick w s = some (.inr b)) ?_ ?_ fuel (SimState.init w) b
    ⟨0, rfl⟩ h
  · rintro s s' ⟨t, htop⟩ htick
    exact ⟨t + 1, topOf_succ.2 ⟨s, htop, htick⟩⟩
  · rintro s b ⟨t, htop⟩ htick
    exact ⟨t, s, htop, htick⟩

/-- **Termination.**  On every non-empty workload some tick takes a `break`, after at most as many
ticks as there are arrivals to wait for and bursts to serve; with any fuel beyond that tick the loop
returns the state at the `break`. -/
theorem event_loop_terminates (w : Workload) (hne : w ≠ []) :
    ∃ t s b, t ≤ tickBound w ∧ topOf w t = some s ∧ tick w s = some (.inr b) ∧
      ∀ fuel, t < fuel → startEvent w fuel = some b := by
  rcases exists_stop_init hne with ⟨t, s, b, hbound, htop, htick⟩
  refine ⟨t, s, b, hbound, htop, htick, ?_⟩
  intro fuel hfuel
  rcases Nat.exists_eq_add_of_lt hfuel with ⟨k, rfl⟩
  exact startEvent_of_stop htop htick k

/-- Two processes with I/O. -/
theorem event_loop_terminates_twoJobs : twoJobs ≠ [] ∧
    ∃ t s b, t ≤ tickBound twoJobs ∧ topOf twoJobs t = some s ∧ tick twoJobs s = some (.inr b) ∧
      ∀ fuel, t < fuel → startEvent twoJobs fuel = some b :=
  ⟨by simp [twoJobs], event_loop_terminates twoJobs (by simp [twoJobs])⟩

end Termination

/-! ## What the loop leaves behind -/

/-- Process `p` has had all its bursts executed to the end and its counters are recorded.  The
`break` leaves the flag of its own device set, so a device works on `p` only while there are ticks
to go. -/
structure ProcessComplete (w : Workload) (b : SimState) (p : Nat) : Prop where
  rest : b.process p = []
  unqueued : ∀ burst, (burst, p) ∉ b.pq ∧ (burst, p) ∉ b.ioq
  off_cpu : ¬ (b.processgoingon = true ∧ b.ongoingpid = p ∧ 1 ≤ b.waitprocessgoingon)
  off_io : ¬ (b.ioprocessgoingon = true ∧ b.ioongoingpid = p ∧ 1 ≤ b.iowaitprocessgoingon)
  served : (b.services p).map Service.length = w.bursts p
  ended : ∀ r ∈ b.services p, r.finish ≤ b.time + 1
  turnaround : ∃ past r, b.services p = past ++ [r] ∧ b.trTime p = (r.finish : Int) - w.ptot p
  waiting : b.waitTime p = b.trTime p - (w.bursts p).sum
  burst : b.btimeTotal p = cpuTime (b.services p)

def Complete (w : Workload) (b : SimState) : Prop :=
  ∀ p, p < w.length → ProcessComplete w b p

section Stop

variable {w : Workload} {s m b : SimState} {place place' placeM : Nat → Place} {d : Device}

theorem Stopped.life (h : SimInv w s place) (hm : Serving w s place m placeM)
    (hs : Stopped w m placeM d b place') (p : Nat) :
    Life (w.ptot p) (w.bursts p) (m.time + 1) (b.view p) (place' p) := by
  have hlife := (hm.life h p).advance (hm.running h p).1
  rw [← hm.refines.time] at hlife
  exact Life.moves (hs.moves p) hlife

/-- The device of the `break` has no ticks to go. -/
theorem Stopped.slot_self (hm : Serving w s place m placeM) (hs : Stopped w m placeM d b place') :
    ∃ i, m.slot d = some (i, 1) ∧ b.slot d = some (i, 0) := by
  rcases hs.ended with ⟨pid, hpid⟩
  have hslot : m.slot d = some ((pid : Int), 1) := (hm.refines.placed.on d pid 1).2 hpid
  refine ⟨pid, hslot, ?_⟩
  rw [hs.slot, countdown_slot]
  simp [hslot]

theorem Stopped.off (hm : Serving w s place m placeM) (hs : Stopped w m placeM d b place')
    (hother : m.slot d.other = none) : ∀ d' i left, b.slot d' = some (i, left) → left = 0 := by
  intro d' i left hslot
  by_cases hd : d' = d
  · subst hd
    rcases hs.slot_self hm with ⟨i', _, hself⟩
    have hpair : i' = i ∧ 0 = left := by simpa [hself] using hslot
    exact hpair.2.symm
  · have hd' : d' = d.other := Device.eq_other_of_ne hd
    rw [hs.slot, countdown_slot, hd'] at hslot
    simp [hother] at hslot

/-- A finished process is complete, the queues being empty and the other device idle. -/
theorem Stopped.processComplete (h : SimInv w s place) (hm : Serving w s place m placeM)
    (hs : Stopped w m placeM d b place') (hother : m.slot d.other = none) {p : Nat}
    (hfin : place' p = .finished) : ProcessComplete w b p := by
  have hlife := hs.life h hm p
  rw [hfin] at hlife
  have hserved : (b.services p).map Service.length = w.bursts p := hlife.accounted.1
  have hempty := (queuesEmpty_iff b).1 hs.empty
  have hpq : b.pq = [] := hempty .cpu
  have hioq : b.ioq = [] := hempty .io
  refine ⟨hlife.accounted.2, by simp [hpq, hioq], ?_, ?_, hserved, ?_, hlife.recorded.1, ?_,
    hlife.btime⟩
  · rintro ⟨hbusy, hpid, hleft⟩
    have hzero := hs.off hm hother .cpu b.ongoingpid b.waitprocessgoingon
      (by simp [SimState.slot, hbusy])
    omega
  · rintro ⟨hbusy, hpid, hleft⟩
    have hzero := hs.off hm hother .io b.ioongoingpid b.iowaitprocessgoingon
      (by simp [SimState.slot, hbusy])
    omega
  · rw [hs.time]
    exact hlife.timed
  · have hwait : b.waitTime p = b.trTime p - b.ptimeTotal p := hlife.recorded.2
    have hptime : b.ptimeTotal p = ((w.bursts p).sum : Nat) := by
      rw [← hserved]
      exact hlife.ptime
    rw [hwait, hptime]

/-- A process on the other device is not recorded, even if its burst ends in the same tick. -/
theorem Stopped.not_complete (h : SimInv w s place) (hm : Serving w s place m placeM)
    (hs : Stopped w m placeM d b place') {p left : Nat} (hon : placeM p = .on d.other left) :
    ¬ ProcessComplete w b p := by
  intro hc
  have hslot : m.slot d.other = some ((p : Int), left) :=
    (hm.refines.placed.on d.other p left).2 hon
  have hslot' : (b.release d).slot d.other = some ((p : Int), left - 1) := by
    rw [release_slot_other, hs.slot, countdown_slot]
    simp [hslot]
  have hplace : place' p = .on d.other (left - 1) := (hs.placed.on d.other p _).1 hslot'
  have hlife := hs.life h hm p
  have hpresent : w.ptot p ≤ s.time := (hm.life h p).present (by simp [hon])
  rw [hplace] at hlife
  have htr : b.trTime p = 0 := hlife.recorded.1
  rcases hc.turnaround with ⟨past, r, hserv, hturn⟩
  rcases hlife.timed with ⟨past', start, length, hserv', hend, _, _⟩
  have hlast : r = ⟨d.other, start, length⟩ := by
    have hboth : past ++ [r] = past' ++ [⟨d.other, start, length⟩] := hserv.symm.trans hserv'
    simpa using (List.append_inj' hboth rfl).2
  have hfinish : r.finish = m.time + 1 + (left - 1) := by
    rw [hlast]
    exact hend
  have htime : m.time = s.time := hm.refines.time
  omega

/-- At a `break` the workload is complete exactly when everybody has arrived and the other device is
idle. -/
theorem Stopped.complete_iff (h : SimInv w s place) (hm : Serving w s place m placeM)
    (hs : Stopped w m placeM d b place') :
    Complete w b ↔ (∀ p, p < w.length → w.ptot p ≤ s.time) ∧ m.slot d.other = none := by
  constructor
  · intro hc
    have harrived : ∀ p, p < w.length → w.ptot p ≤ s.time := by
      intro p hp
      by_contra hlate
      have haway : place' p = .away := (hs.away p).2 ((hm.away p).2 fun harr => hlate harr.2)
      have hlife := hs.life h hm p
      rw [haway] at hlife
      have hrest : b.process p = w.bursts p := hlife.accounted.2
      exact w.bursts_ne_nil hp (hrest ▸ (hc p hp).rest)
    refine ⟨harrived, ?_⟩
    cases hslot : m.slot d.other with
    | none => rfl
    | some x =>
        rcases x with ⟨i, left⟩
        rcases hm.refines.placed.named _ i left hslot with ⟨p, rfl⟩
        have hon : placeM p = .on d.other left := (hm.refines.placed.on _ p left).1 hslot
        have hp : p < w.length := by
          by_contra hp
          have haway : placeM p = .away := (hm.away p).2 fun harr => hp harr.1
          simp [hon] at haway
        exact absurd (hc p hp) (hs.not_complete h hm hon)
  · rintro ⟨harrived, hother⟩ p hp
    apply hs.processComplete h hm hother
    -- Nobody is away, waiting or on a device.
    cases hplace : place' p with
    | finished => rfl
    | away => exact absurd ⟨hp, harrived p hp⟩ ((hm.away p).1 ((hs.away p).1 hplace))
    | waiting d' burst =>
        have hmem := (hs.placed.waiting d' burst p).2 hplace
        simp [(queuesEmpty_iff b).1 hs.empty d'] at hmem
    | on d' left =>
        have hslot := (hs.placed.on d' p left).2 hplace
        by_cases hd : d' = d
        · subst hd
          simp at hslot
        · have hd' : d' = d.other := Device.eq_other_of_ne hd
          rw [hd', release_slot_other, hs.slot, countdown_slot] at hslot
          simp [hother] at hslot

end Stop

/-! ## The exit test -/

/-- The tick served in `m` takes one of the `break`s: both queues are empty and the last burst of a
process ends, on the I/O device or, the I/O device completing nothing, on the CPU. -/
def Breaks (m : SimState) : Prop :=
  m.pq = [] ∧ m.ioq = [] ∧
    ((m.ioprocessgoingon = true ∧ m.iowaitprocessgoingon ≤ 1 ∧
        m.process m.ioongoingpid.toNat = []) ∨
      (m.processgoingon = true ∧ m.waitprocessgoingon ≤ 1 ∧ m.process m.ongoingpid.toNat = [] ∧
        ¬ (m.ioprocessgoingon = true ∧ m.iowaitprocessgoingon ≤ 1)))

section ExitTest

variable {w : Workload} {s m : SimState}

theorem queuesEmpty_ioBurstOver (c : SimState) : queuesEmpty (ioBurstOver w c) = true ↔
    queuesEmpty c = true ∧ c.process c.ioongoingpid.toNat = [] := by
  cases hrest : c.process c.ioongoingpid.toNat with
  | nil => simp [ioBurstOver, hrest, finish, queuesEmpty]
  | cons burst rest =>
      have hne : push (burst, c.ioongoingpid.toNat) c.pq ≠ [] := by
        intro hnil
        have hlen := (push_perm (burst, c.ioongoingpid.toNat) c.pq).length_eq
        simp [hnil] at hlen
      simp [ioBurstOver, hrest, toReady, queuesEmpty, hne]

theorem queuesEmpty_cpuBurstOver (c : SimState) : queuesEmpty (cpuBurstOver w c) = true ↔
    queuesEmpty c = true ∧ c.process c.ongoingpid.toNat = [] := by
  cases hrest : c.process c.ongoingpid.toNat with
  | nil => simp [cpuBurstOver, hrest, finish, queuesEmpty]
  | cons burst rest => simp [cpuBurstOver, hrest, toIo, queuesEmpty]

/-- The CPU block takes its `break` exactly when its burst is over, was the last one of its process,
and the queues are empty. -/
theorem cpuComplete_breaks (c : SimState) : (∃ b, cpuComplete w c = .inr b) ↔
    c.processgoingon = true ∧ c.waitprocessgoingon = 0 ∧ queuesEmpty c = true ∧
      c.process c.ongoingpid.toNat = [] := by
  by_cases hover : c.processgoingon = true ∧ c.waitprocessgoingon = 0
  · by_cases hempty : queuesEmpty (cpuBurstOver w c) = true
    · have hboth := (queuesEmpty_cpuBurstOver c).1 hempty
      simp [cpuComplete, hover, hempty, hboth]
    · have hboth := mt (queuesEmpty_cpuBurstOver (w := w) c).2 hempty
      simp only [cpuComplete, hover, hempty]
      simpa using hboth
  · have hskip : (c.processgoingon && c.waitprocessgoingon == 0) = false := by simpa using hover
    simp only [cpuComplete, hskip]
    refine iff_of_false (by simp) fun h => hover ⟨h.1, h.2.1⟩

theorem ioComplete_breaks (c : SimState) : (∃ b, ioComplete w c = .inr b) ↔
    c.ioprocessgoingon = true ∧ c.iowaitprocessgoingon = 0 ∧ queuesEmpty c = true ∧
      c.process c.ioongoingpid.toNat = [] := by
  by_cases hover : c.ioprocessgoingon = true ∧ c.iowaitprocessgoingon = 0
  · by_cases hempty : queuesEmpty (ioBurstOver w c) = true
    · have hboth := (queuesEmpty_ioBurstOver c).1 hempty
      simp [ioComplete, hover, hempty, hboth]
    · have hboth := mt (queuesEmpty_ioBurstOver (w := w) c).2 hempty
      simp only [ioComplete, hover, hempty]
      simpa using hboth
  · have hskip : (c.ioprocessgoingon && c.iowaitprocessgoingon == 0) = false := by simpa using hover
    simp only [ioComplete, hskip]
    refine iff_of_false (by simp) fun h => hover ⟨h.1, h.2.1⟩

/-- An I/O block that does not break has nothing to complete, or somebody waits after it. -/
theorem ioComplete_goes_on {c c' : SimState} (h : ioComplete w c = .inl c') :
    (c' = c ∧ ¬ (c.ioprocessgoingon = true ∧ c.iowaitprocessgoingon = 0)) ∨
      queuesEmpty c' = false := by
  by_cases hover : c.ioprocessgoingon = true ∧ c.iowaitprocessgoingon = 0
  · right
    by_cases hempty : queuesEmpty (ioBurstOver w c) = true
    · simp [ioComplete, hover, hempty] at h
    · have hne : queuesEmpty (ioBurstOver w c) = false := by simpa using hempty
      have hc' : (ioBurstOver w c).release .io = c' := by
        simpa [ioComplete, hover, hne, SimState.release] using h
      rw [← hc', release_queuesEmpty, hne]
  · left
    have hskip : (c.ioprocessgoingon && c.iowaitprocessgoingon == 0) = false := by simpa using hover
    have hc' : c = c' := by simpa [ioComplete, hskip] using h
    exact ⟨hc'.symm, hover⟩

theorem tick_breaks (hserving : serving w s = some m) :
    (∃ b, tick w s = some (.inr b)) ↔ Breaks m := by
  have hqueues : queuesEmpty (countdown m) = true ↔ m.pq = [] ∧ m.ioq = [] := by
    simp [queuesEmpty, countdown]
  have hcpuOver : (countdown m).waitprocessgoingon = 0 ↔ m.waitprocessgoingon ≤ 1 :=
    Nat.sub_eq_zero_iff_le
  have hioOver : (countdown m).iowaitprocessgoingon = 0 ↔ m.iowaitprocessgoingon ≤ 1 :=
    Nat.sub_eq_zero_iff_le
  constructor
  · rintro ⟨b, hb⟩
    cases hio : ioComplete w (countdown m) with
    | inr b' =>
        rcases (ioComplete_breaks _).1 ⟨b', hio⟩ with ⟨hbusy, hover, hempty, hrest⟩
        rcases hqueues.1 hempty with ⟨hpq, hioq⟩
        exact ⟨hpq, hioq, Or.inl ⟨hbusy, hioOver.1 hover, hrest⟩⟩
    | inl c =>
        have hcpu : ∃ b, cpuComplete w c = .inr b := by
          cases hc : cpuComplete w c with
          | inl c' => simp [tick, hserving, hio, hc] at hb
          | inr b' => exact ⟨b', rfl⟩
        rcases (cpuComplete_breaks c).1 hcpu with ⟨hbusy, hover, hempty, hrest⟩
        -- If the I/O block completed a burst, somebody waits and the CPU block does not break.
        rcases ioComplete_goes_on hio with ⟨rfl, hidle⟩ | hne
        · rcases hqueues.1 hempty with ⟨hpq, hioq⟩
          refine ⟨hpq, hioq, Or.inr ⟨hbusy, hcpuOver.1 hover, hrest, ?_⟩⟩
          rintro ⟨hbusy', hleft⟩
          exact hidle ⟨hbusy', hioOver.2 hleft⟩
        · simp [hempty] at hne
  · rintro ⟨hpq, hioq, ⟨hbusy, hleft, hrest⟩ | ⟨hbusy, hleft, hrest, hidle⟩⟩
    · rcases (ioComplete_breaks (w := w) (countdown m)).2
        ⟨hbusy, hioOver.2 hleft, hqueues.2 ⟨hpq, hioq⟩, hrest⟩ with ⟨b, hb⟩
      exact ⟨b, by simp [tick, hserving, hb]⟩
    · have hskip : ioComplete w (countdown m) = .inl (countdown m) := by
        have hnot : ((countdown m).ioprocessgoingon && (countdown m).iowaitprocessgoingon == 0) =
            false := by
          simpa [countdown, Nat.sub_eq_zero_iff_le] using hidle
        simp [ioComplete, hnot]
      rcases (cpuComplete_breaks (w := w) (countdown m)).2
        ⟨hbusy, hcpuOver.2 hleft, hqueues.2 ⟨hpq, hioq⟩, hrest⟩ with ⟨b, hb⟩
      exact ⟨b, by simp [tick, hserving, hskip, hb]⟩

end ExitTest

/-! ## Main result -/

/-- The `break` does no harm in the tick served in `m`: if it is taken, everybody has arrived and
only one device is busy. -/
def SafeBreak (w : Workload) (t : Nat) (m : SimState) : Prop :=
  Breaks m → (∀ p, p < w.length → w.ptot p ≤ t) ∧
    ¬ (m.processgoingon = true ∧ m.ioprocessgoingon = true)

theorem slot_none_iff (m : SimState) {d : Device} (hd : m.slot d ≠ none) :
    m.slot d.other = none ↔ ¬ (m.processgoingon = true ∧ m.ioprocessgoingon = true) := by
  cases d with
  | cpu =>
      have hbusy : m.processgoingon = true := by
        by_contra h
        simp [SimState.slot, h] at hd
      simp [Device.other, SimState.slot, hbusy]
  | io =>
      have hbusy : m.ioprocessgoingon = true := by
        by_contra h
        simp [SimState.slot, h] at hd
      simp [Device.other, SimState.slot, hbusy]

/-- The loop stops on every non-empty workload, and it leaves all processes complete exactly when no
tick takes the `break` while the other device is busy or a process has still to arrive. -/
theorem sjf_complete_iff (w : Workload) (hne : w ≠ []) :
    (∃ fuel b, startEvent w fuel = some b) ∧
    ((∀ fuel b, startEvent w fuel = some b → Complete w b) ↔
      ∀ t s m, topOf w t = some s → serving w s = some m → SafeBreak w t m) := by
  refine ⟨startEvent_terminates hne, ?_, ?_⟩
  · intro hcomplete t s m htop hserving hbreaks
    rcases topOf_inv t htop with ⟨place, hinv, htime, _⟩
    rcases hinv.serving with ⟨m', placeM, hserving', hm⟩
    have hmm : m' = m := by simpa [hserving] using hserving'.symm
    subst hmm
    rcases (tick_breaks hserving).2 hbreaks with ⟨b, htick⟩
    have hstart : startEvent w (t + 1) = some b := startEvent_of_stop htop htick 0
    rcases hinv.tick hserving hm with ⟨s', place', htick', _⟩ | ⟨d, b', place', htick', hstop⟩
    · simp [htick] at htick'
    · have hbb : b' = b := by simpa [htick] using htick'.symm
      subst hbb
      rcases (hstop.complete_iff hinv hm).1 (hcomplete _ _ hstart) with ⟨harrived, hother⟩
      rcases hstop.slot_self hm with ⟨i, hself, _⟩
      exact ⟨htime ▸ harrived, (slot_none_iff m' (by simp [hself])).1 hother⟩
  · intro hsafe fuel b hstart
    rcases startEvent_stop hstart with ⟨t, s, htop, htick⟩
    rcases topOf_inv t htop with ⟨place, hinv, htime, _⟩
    rcases hinv.serving with ⟨m, placeM, hserving, hm⟩
    rcases hinv.tick hserving hm with ⟨s', place', htick', _⟩ | ⟨d, b', place', htick', hstop⟩
    · simp [htick] at htick'
    · have hbb : b' = b := by simpa [htick] using htick'.symm
      subst hbb
      rcases hsafe t s m htop hserving ((tick_breaks hserving).1 ⟨b', htick⟩) with ⟨harrived, hone⟩
      rcases hstop.slot_self hm with ⟨i, hself, _⟩
      exact (hstop.complete_iff hinv hm).2
        ⟨htime.symm ▸ harrived, (slot_none_iff m (by simp [hself])).2 hone⟩

/-- One process alone: the loop stops after one tick. -/
theorem sjf_complete_iff_oneJob :
    (∃ b, startEvent [⟨0, [1], by simp, by simp⟩] 1 = some b ∧ b.trTime 0 = 1) ∧
    ((∀ fuel b, startEvent [⟨0, [1], by simp, by simp⟩] fuel = some b →
        Complete [⟨0, [1], by simp, by simp⟩] b) ↔
      ∀ t s m, topOf [⟨0, [1], by simp, by simp⟩] t = some s →
        serving [⟨0, [1], by simp, by simp⟩] s = some m →
        SafeBreak [⟨0, [1], by simp, by simp⟩] t m) := by
  refine ⟨⟨(startEvent [⟨0, [1], by simp, by simp⟩] 1).get (by decide), by simp, by decide⟩, ?_⟩
  exact (sjf_complete_iff [⟨0, [1], by simp, by simp⟩] (by simp)).2

/-- The second process arrives at tick 5, but the loop stops at tick 0. -/
def lateJob : Workload :=
  [⟨0, [1], by simp, by simp⟩, ⟨5, [1], by simp, by simp⟩]

theorem lateJob_incomplete :
    lateJob ≠ [] ∧ ¬ ∀ fuel b, startEvent lateJob fuel = some b → Complete lateJob b := by
  refine ⟨by simp [lateJob], ?_⟩
  intro hcomplete
  have hb := hcomplete 1 ((startEvent lateJob 1).get (by decide)) (by simp)
  have hrest := (hb 1 (by decide)).rest
  have hleft : ((startEvent lateJob 1).get (by decide)).process 1 = [1] := by decide
  simp [hleft] at hrest

end Sjf
end OsLab
