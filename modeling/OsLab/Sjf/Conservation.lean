import OsLab.Sjf.Refinement

/-!
# Conservation — no process is lost or duplicated

The invariant `SimInv` of the event loop at the top of a tick, the step lemma for one tick (which may
`break`), and the run lemma.  The main result reads the invariant back in the simulator's own terms:
every arrived, unfinished process is in exactly one of `pq`, `ioq`, the CPU slot and the I/O slot,
its bursts are dispatched in order and to alternating devices, and a device serves a process in
exactly the ticks of the services it announced.
-/

namespace OsLab
namespace Sjf

open OsLab.Lib

/-! ## The invariant -/

structure SimInv (w : Workload) (s : SimState) (place : Nat → Place) : Prop where
  placed : Placed s.queue s.slot place
  life : ∀ p, Life (w.ptot p) (w.bursts p) s.time (s.view p) (place p)
  running : ∀ p d left, place p = .on d left → 1 ≤ left
  away : ∀ p, place p = .away ↔ ¬ (p < w.length ∧ w.ptot p < s.time)

theorem Workload.bursts_pos (w : Workload) (p : Nat) : ∀ b ∈ w.bursts p, 1 ≤ b := by
  intro b hb
  cases hjob : w[p]? with
  | none => simp [Workload.bursts, hjob] at hb
  | some job => exact job.bursts_pos b (by simpa [Workload.bursts, hjob] using hb)

theorem Workload.bursts_ne_nil (w : Workload) {p : Nat} (hp : p < w.length) :
    w.bursts p ≠ [] := by
  have hjob : w[p]? = some w[p] := List.getElem?_eq_getElem hp
  simpa [Workload.bursts, hjob] using w[p].bursts_ne_nil

theorem SimInv.init (w : Workload) : SimInv w (SimState.init w) (fun _ => .away) where
  placed :=
    { waiting := by
        intro d b p
        cases d <;> simp [SimState.queue, SimState.init]
      nodup := by
        intro d
        cases d <;> simp [SimState.queue, SimState.init]
      on := by
        intro d p left
        cases d <;> simp [SimState.slot, SimState.init]
      named := by
        intro d i left h
        cases d <;> simp [SimState.slot, SimState.init] at h }
  life := fun p => Life.init (w.ptot p) (w.bursts p) 0
  running := by simp
  away := by simp [SimState.init]

/-! ## The first half of a tick -/

/-- Arrivals and dispatches: nobody waits for an idle device any more. -/
structure Serving (w : Workload) (s : SimState) (place : Nat → Place) (m : SimState)
    (placeM : Nat → Place) : Prop where
  refines : Refines w s.time s place m placeM
  away : ∀ p, placeM p = .away ↔ ¬ (p < w.length ∧ w.ptot p ≤ s.time)
  busy : ∀ d, m.slot d = none → m.queue d = []

section Tick

variable {w : Workload} {s m : SimState} {place placeM : Nat → Place}

theorem SimInv.arrivals (h : SimInv w s place) :
    ∃ a placeA, arrivals w s = some a ∧ Refines w s.time s place a placeA ∧
      ∀ p, placeA p = .away ↔ ¬ (p < w.length ∧ w.ptot p ≤ s.time) := by
  have hmem : ∀ p, p ∈ w.arrivalsAt s.time ↔ p < w.length ∧ w.ptot p = s.time := by
    intro p
    simp [Workload.arrivalsAt]
  have hpids : ∀ p ∈ w.arrivalsAt s.time,
      place p = .away ∧ s.time = w.ptot p ∧ s.process p ≠ [] := by
    intro p hp
    rcases (hmem p).1 hp with ⟨hlt, hnow⟩
    have haway : place p = .away := (h.away p).2 fun harr => absurd harr.2 (hnow ▸ Nat.lt_irrefl _)
    have hacc := (h.life p).accounted
    rw [haway] at hacc
    have hrest : s.process p = w.bursts p := hacc.2
    exact ⟨haway, hnow.symm, hrest ▸ w.bursts_ne_nil hlt⟩
  have hnodup : (w.arrivalsAt s.time).Nodup := List.nodup_range.filter _
  rcases arriveAll_refines (w.arrivalsAt s.time) h.placed hnodup hpids with
    ⟨a, placeA, hrun, href, _, haway⟩
  refine ⟨a, placeA, hrun, href, ?_⟩
  intro p
  rw [haway p, h.away p, hmem p]
  omega

theorem SimInv.serving (h : SimInv w s place) :
    ∃ m placeM, serving w s = some m ∧ Serving w s place m placeM := by
  rcases h.arrivals with ⟨a, placeA, harr, hrefA, hawayA⟩
  rcases cpuDispatch_dispatched (w := w) hrefA.placed with ⟨placeC, hcpu⟩
  rcases ioDispatch_dispatched (w := w) hcpu.refines.placed with ⟨placeM, hio⟩
  have htimeA : a.time = s.time := hrefA.time
  have htimeC : (cpuDispatch w a).time = s.time := hcpu.refines.time.trans htimeA
  refine ⟨ioDispatch (cpuDispatch w a), placeM, by simp [Sjf.serving, harr], ?_, ?_, ?_⟩
  · have hrefC : Refines w s.time a placeA (cpuDispatch w a) placeC := htimeA ▸ hcpu.refines
    have hrefM : Refines w s.time (cpuDispatch w a) placeC (ioDispatch (cpuDispatch w a)) placeM :=
      htimeC ▸ hio.refines
    exact (hrefA.trans hrefC).trans hrefM
  · intro p
    rw [hio.away p, hcpu.away p, hawayA p]
  · intro d hidle
    cases d with
    | io => exact hio.busy hidle
    | cpu =>
        -- The I/O dispatch does not touch the ready queue or the CPU slot.
        have hslot : (cpuDispatch w a).slot .cpu = none := hio.slot_other ▸ hidle
        exact hio.queue_other.trans (hcpu.busy hslot)

theorem Serving.life (h : SimInv w s place) (hm : Serving w s place m placeM) (p : Nat) :
    Life (w.ptot p) (w.bursts p) s.time (m.view p) (placeM p) :=
  Life.moves (hm.refines.moves p) (h.life p)

theorem Serving.running (h : SimInv w s place) (hm : Serving w s place m placeM) (p : Nat) :
    (∀ d left, placeM p = .on d left → 1 ≤ left) ∧
      (place p ≠ .finished → placeM p ≠ .finished) :=
  Moves.running (w.bursts_pos p) (hm.refines.moves p) (h.life p) (h.running p)

/-! ## The second half of a tick -/

theorem countdown_slot (m : SimState) :
    (countdown m).slot = fun d => (m.slot d).map fun x => (x.1, x.2 - 1) := by
  funext d
  cases d with
  | cpu => by_cases h : m.processgoingon <;> simp [SimState.slot, countdown, h]
  | io => by_cases h : m.ioprocessgoingon <;> simp [SimState.slot, countdown, h]

theorem countdown_queue (m : SimState) : (countdown m).queue = m.queue := by
  funext d
  cases d <;> rfl

/-- A completion block of device `d` that does not `break`. -/
structure Phase (w : Workload) (d : Device) (s : SimState) (place : Nat → Place) (s' : SimState)
    (place' : Nat → Place) : Prop where
  refines : Refines w (s.time + 1) s place s' place'
  away : ∀ p, place' p = .away ↔ place p = .away
  free : ∀ p, place' p ≠ .on d 0
  slot_other : s'.slot d.other = s.slot d.other
  occupied : s'.slot = s.slot ∨ queuesEmpty s' = false
  filled : queuesEmpty s = false → queuesEmpty s' = false

theorem release_queuesEmpty (d : Device) (b : SimState) :
    queuesEmpty (b.release d) = queuesEmpty b := by
  cases d <;> rfl

theorem Completed.phase {d : Device} {b : SimState} {place' : Nat → Place}
    (h : Completed w d s place b place') (hne : queuesEmpty b = false) :
    Phase w d s place (b.release d) place' where
  refines := h.refines
  away := h.away
  free := by
    intro p hon
    simpa using (h.refines.placed.on d p 0).2 hon
  slot_other := by rw [release_slot_other, h.slot]
  occupied := Or.inr (by rw [release_queuesEmpty, hne])
  filled := fun _ => by rw [release_queuesEmpty, hne]

/-- Both completion blocks have the same outcomes. -/
theorem phase_cases (hplaced : Placed s.queue s.slot place) {d : Device} {out : SimState ⊕ SimState}
    (hout : (out = .inl s ∧ ∀ p, place p ≠ .on d 0) ∨
      ∃ b place', Completed w d s place b place' ∧
        out = if queuesEmpty b then .inr b else .inl (b.release d)) :
    (∃ s' place', out = .inl s' ∧ Phase w d s place s' place') ∨
      ∃ b place', out = .inr b ∧ Completed w d s place b place' ∧ queuesEmpty b = true := by
  rcases hout with ⟨hskip, hfree⟩ | ⟨b, place', hcompleted, hout⟩
  · left
    exact ⟨s, place, hskip, Refines.refl hplaced, fun _ => Iff.rfl, hfree, rfl, Or.inl rfl, id⟩
  · by_cases hempty : queuesEmpty b = true
    · right
      exact ⟨b, place', by simp [hout, hempty], hcompleted, hempty⟩
    · left
      have hne : queuesEmpty b = false := by simpa using hempty
      exact ⟨b.release d, place', by simp [hout, hne], hcompleted.phase hne⟩

/-- A tick that ends the loop: `b` is the state at the `break` of device `d`. -/
structure Stopped (w : Workload) (m : SimState) (placeM : Nat → Place) (d : Device) (b : SimState)
    (place' : Nat → Place) : Prop where
  placed : Placed (b.release d).queue (b.release d).slot place'
  moves : ∀ p, Moves (w.ptot p) (m.time + 1) (m.view p, (placeM p).countdown) (b.view p, place' p)
  away : ∀ p, place' p = .away ↔ placeM p = .away
  time : b.time = m.time
  empty : queuesEmpty b = true
  slot : b.slot = (countdown m).slot
  ended : ∃ pid, placeM pid = .on d 1

/-- A tick that goes round again: a device that completed a burst is released, and then somebody
waits in a queue. -/
structure Continued (w : Workload) (m : SimState) (placeM : Nat → Place) (s' : SimState)
    (place' : Nat → Place) : Prop where
  inv : SimInv w s' place'
  moves : ∀ p, Moves (w.ptot p) (m.time + 1) (m.view p, (placeM p).countdown) (s'.view p, place' p)
  time : s'.time = m.time + 1
  occupied : s'.slot = (countdown m).slot ∨ queuesEmpty s' = false

section Outcomes

variable {c₁ c₂ b : SimState} {place₁ place₂ place' : Nat → Place}

theorem Serving.counted (hm : Serving w s place m placeM) :
    Placed (countdown m).queue (countdown m).slot (fun p => (placeM p).countdown) := by
  rw [countdown_queue, countdown_slot]
  exact hm.refines.placed.countdown

theorem Serving.life_counted (h : SimInv w s place) (hm : Serving w s place m placeM) (p : Nat) :
    Life (w.ptot p) (w.bursts p) (m.time + 1) ((countdown m).view p) (placeM p).countdown := by
  have hlife := (hm.life h p).advance (hm.running h p).1
  rw [hm.refines.time]
  exact hlife

/-- A burst that is over after the countdown had one tick to go before it. -/
theorem Serving.last_tick (h : SimInv w s place) (hm : Serving w s place m placeM) {p : Nat}
    {d : Device} (hp : (placeM p).countdown = .on d 0) : placeM p = .on d 1 := by
  rcases Place.countdown_eq_on.1 hp with ⟨left, hleft, hzero⟩
  have hpos := (hm.running h p).1 d left hleft
  have hone : left = 1 := by omega
  exact hone ▸ hleft

/-- Neither completion block breaks: the tick restores the invariant. -/
theorem Serving.continued (h : SimInv w s place) (hm : Serving w s place m placeM)
    (hio : Phase w .io (countdown m) (fun p => (placeM p).countdown) c₁ place₁)
    (hcpu : Phase w .cpu c₁ place₁ c₂ place₂) :
    Continued w m placeM { c₂ with time := c₂.time + 1 } place₂ := by
  have htime₁ : c₁.time = m.time := hio.refines.time
  have htime₂ : c₂.time = m.time := hcpu.refines.time.trans htime₁
  have hmoves : ∀ p, Moves (w.ptot p) (m.time + 1) (m.view p, (placeM p).countdown)
      (c₂.view p, place₂ p) := by
    intro p
    have hsecond := hcpu.refines.moves p
    rw [htime₁] at hsecond
    exact (hio.refines.moves p).trans hsecond
  refine ⟨⟨hcpu.refines.placed, ?_, ?_, ?_⟩, hmoves, ?_, ?_⟩
  · intro p
    have hlife := Life.moves (hmoves p) (hm.life_counted h p)
    rw [htime₂]
    exact hlife
  · -- Bursts without ticks to go have left both devices.
    intro p d left hon
    rcases Nat.eq_zero_or_pos left with hzero | hpos
    · subst hzero
      cases d with
      | cpu => exact absurd hon (hcpu.free p)
      | io =>
          have hslot : c₁.slot .io = some ((p : Int), 0) := by
            rw [← show c₂.slot .io = c₁.slot .io from hcpu.slot_other]
            exact (hcpu.refines.placed.on .io p 0).2 hon
          exact absurd ((hio.refines.placed.on .io p 0).1 hslot) (hio.free p)
    · exact hpos
  · intro p
    rw [hcpu.away p, hio.away p, Place.countdown_eq_away, hm.away p, htime₂, hm.refines.time,
      Nat.lt_succ_iff]
  · simp [htime₂]
  · rcases hcpu.occupied with hslot₂ | hne
    · rcases hio.occupied with hslot₁ | hne
      · exact Or.inl (hslot₂.trans hslot₁)
      · exact Or.inr (hcpu.filled hne)
    · exact Or.inr hne

theorem Serving.stopped_io (h : SimInv w s place) (hm : Serving w s place m placeM)
    (hover : Completed w .io (countdown m) (fun p => (placeM p).countdown) b place')
    (hempty : queuesEmpty b = true) : Stopped w m placeM .io b place' := by
  refine ⟨hover.refines.placed, ?_, ?_, ?_, hempty, hover.slot, ?_⟩
  · intro p
    have hmoves := hover.refines.moves p
    rw [release_view] at hmoves
    exact hmoves
  · intro p
    rw [hover.away p, Place.countdown_eq_away]
  · have htime := hover.refines.time
    rw [release_time] at htime
    exact htime
  · rcases hover.ended with ⟨pid, hpid⟩
    exact ⟨pid, hm.last_tick h hpid⟩

theorem Serving.stopped_cpu (h : SimInv w s place) (hm : Serving w s place m placeM)
    (hio : Phase w .io (countdown m) (fun p => (placeM p).countdown) c₁ place₁)
    (hover : Completed w .cpu c₁ place₁ b place') (hempty : queuesEmpty b = true) :
    Stopped w m placeM .cpu b place' := by
  have htime₁ : c₁.time = m.time := hio.refines.time
  -- The I/O block releases its device only if somebody waits, and then there is no `break`.
  have hslot₁ : c₁.slot = (countdown m).slot := by
    rcases hio.occupied with hslot | hne
    · exact hslot
    · rw [hover.empties hempty] at hne
      exact absurd hne (by simp)
  refine ⟨hover.refines.placed, ?_, ?_, ?_, hempty, hover.slot.trans hslot₁, ?_⟩
  · intro p
    have hsecond := hover.refines.moves p
    rw [htime₁, release_view] at hsecond
    exact (hio.refines.moves p).trans hsecond
  · intro p
    rw [hover.away p, hio.away p, Place.countdown_eq_away]
  · have htime := hover.refines.time
    rw [release_time] at htime
    exact htime.trans htime₁
  · rcases hover.ended with ⟨pid, hpid⟩
    have hslot : (countdown m).slot .cpu = some ((pid : Int), 0) := by
      rw [← hslot₁]
      exact (hio.refines.placed.on .cpu pid 0).2 hpid
    exact ⟨pid, hm.last_tick h ((hm.counted.on .cpu pid 0).1 hslot)⟩

end Outcomes

/-- One tick: it either ends the loop at a `break` or restores the invariant. -/
theorem SimInv.tick (h : SimInv w s place) (hserving : Sjf.serving w s = some m)
    (hm : Serving w s place m placeM) :
    (∃ s' place', tick w s = some (.inl s') ∧ Continued w m placeM s' place') ∨
      ∃ d b place', tick w s = some (.inr b) ∧ Stopped w m placeM d b place' := by
  rcases phase_cases hm.counted (ioComplete_cases (w := w) hm.counted) with
    ⟨c₁, place₁, hio, hphase₁⟩ | ⟨b, place', hio, hover, hempty⟩
  · rcases phase_cases hphase₁.refines.placed (cpuComplete_cases (w := w) hphase₁.refines.placed)
      with ⟨c₂, place₂, hcpu, hphase₂⟩ | ⟨b, place', hcpu, hover, hempty⟩
    · left
      exact ⟨_, place₂, by simp [Sjf.tick, hserving, hio, hcpu], hm.continued h hphase₁ hphase₂⟩
    · right
      exact ⟨.cpu, b, place', by simp [Sjf.tick, hserving, hio, hcpu],
        hm.stopped_cpu h hphase₁ hover hempty⟩
  · right
    exact ⟨.io, b, place', by simp [Sjf.tick, hserving, hio], hm.stopped_io h hover hempty⟩

end Tick

/-! ## Whole runs -/

/-- The process that device `d` serves in tick `t`. -/
def servedAt (w : Workload) (t : Nat) (d : Device) : Option Int :=
  (topOf w t).bind fun s => (serving w s).bind fun m => (m.slot d).map Prod.fst

/-- Device `d` is announced to serve `p` in tick `t`. -/
def Announced (s : SimState) (d : Device) (p t : Nat) : Prop :=
  ∃ r ∈ s.services p, r.device = d ∧ r.start ≤ t ∧ t < r.finish

/-- The occupation of the devices up to the top of tick `t` is the one announced in `s`. -/
def Timeline (w : Workload) (t : Nat) (s : SimState) : Prop :=
  ∀ t' < t, ∀ d (p : Nat), servedAt w t' d = some (p : Int) ↔ Announced s d p t'

section Runs

variable {w : Workload} {t : Nat} {s s' m : SimState} {place placeM : Nat → Place}

theorem topOf_succ : topOf w (t + 1) = some s' ↔
    ∃ s, topOf w t = some s ∧ tick w s = some (.inl s') := by
  constructor
  · intro h
    rcases Option.bind_eq_some_iff.1 h with ⟨s, hs, htick⟩
    rcases Option.bind_eq_some_iff.1 htick with ⟨r, hr, hsome⟩
    cases r with
    | inl s'' =>
        have : s'' = s' := by simpa using hsome
        exact ⟨s, hs, this ▸ hr⟩
    | inr b => simp at hsome
  · rintro ⟨s, hs, htick⟩
    simp [topOf, hs, htick]

/-- While a tick is served, a device holds a process exactly when a service of it is under way. -/
theorem Serving.announced (h : SimInv w s place) (hm : Serving w s place m placeM) (d : Device)
    (p : Nat) : (m.slot d).map Prod.fst = some (p : Int) ↔ Announced m d p s.time := by
  have hlife := hm.life h p
  constructor
  · intro hslot
    rcases Option.map_eq_some_iff.1 hslot with ⟨⟨i, left⟩, hs, hi⟩
    have hi' : i = p := hi
    subst hi'
    have hplace : placeM p = .on d left := (hm.refines.placed.on d p left).1 hs
    have hpos : 1 ≤ left := (hm.running h p).1 d left hplace
    have htimed := hlife.timed
    rw [hplace] at htimed
    rcases htimed with ⟨past, start, length, hserv, hend, hle, _⟩
    have hserv' : m.services p = past ++ [⟨d, start, length⟩] := hserv
    refine ⟨⟨d, start, length⟩, by simp [hserv'], rfl, ?_, ?_⟩
    · change start ≤ s.time
      omega
    · change s.time < start + length
      omega
  · rintro ⟨r, hr, hdev, hstart, hlate⟩
    -- A service that is not over belongs to a process on a device, and it is the last one.
    have htimed := hlife.timed
    cases hplace : placeM p with
    | on d' left =>
        rw [hplace] at htimed
        rcases htimed with ⟨past, start, length, hserv, _, _, hpast⟩
        have hmem : r ∈ past ++ [⟨d', start, length⟩] := hserv ▸ hr
        rcases List.mem_append.1 hmem with hmem | hmem
        · exact absurd (hpast r hmem) (Nat.not_le.2 hlate)
        · have hr' : r = ⟨d', start, length⟩ := by simpa using hmem
          have hd : d' = d := by simpa [hr'] using hdev
          subst hd
          simp [(hm.refines.placed.on d' p left).2 hplace]
    | away =>
        rw [hplace] at htimed
        exact absurd (htimed r hr) (Nat.not_le.2 hlate)
    | waiting d' b =>
        rw [hplace] at htimed
        exact absurd (htimed r hr) (Nat.not_le.2 hlate)
    | finished =>
        rw [hplace] at htimed
        exact absurd (htimed r hr) (Nat.not_le.2 hlate)

/-- Services announced at later instants do not cover earlier ticks. -/
theorem announced_of_append {a b : SimState} {d : Device} {p now t : Nat} {fresh : List Service}
    (hserv : b.services p = a.services p ++ fresh) (hfresh : ∀ r ∈ fresh, r.start = now)
    (ht : t < now) : Announced b d p t ↔ Announced a d p t := by
  constructor
  · rintro ⟨r, hr, hdev, hstart, hlate⟩
    rw [hserv] at hr
    rcases List.mem_append.1 hr with hr | hr
    · exact ⟨r, hr, hdev, hstart, hlate⟩
    · rw [hfresh r hr] at hstart
      exact absurd ht (Nat.not_lt.2 hstart)
  · rintro ⟨r, hr, hrest⟩
    exact ⟨r, by rw [hserv]; exact List.mem_append_left _ hr, hrest⟩

theorem Timeline.step (h : SimInv w s place) (htop : topOf w t = some s) (htime : s.time = t)
    (hline : Timeline w t s) (hserving : Sjf.serving w s = some m)
    (hm : Serving w s place m placeM) {place' : Nat → Place}
    (hc : Continued w m placeM s' place') : Timeline w (t + 1) s' := by
  intro t' ht' d p
  have hserv := Moves.services_eq (hm.refines.moves p)
  have hserv' := Moves.services_eq (hc.moves p)
  rcases hserv with ⟨fresh, happ, hfresh⟩
  rcases hserv' with ⟨fresh', happ', hfresh'⟩
  have hlate : Announced s' d p t' ↔ Announced m d p t' := by
    refine announced_of_append happ' hfresh' ?_
    rw [hm.refines.time, htime]
    exact ht'
  rcases Nat.lt_succ_iff_lt_or_eq.1 ht' with hlt | heq
  · have hearly : Announced m d p t' ↔ Announced s d p t' := by
      refine announced_of_append happ hfresh ?_
      rw [htime]
      exact hlt
    rw [hlate, hearly]
    exact hline t' hlt d p
  · subst heq
    have hnow : servedAt w t' d = (m.slot d).map Prod.fst := by
      simp [servedAt, htop, hserving]
    rw [hnow, hlate, hm.announced h d p, htime]

/-- The invariant and the timeline at the top of every tick that is reached. -/
theorem topOf_inv : ∀ (t : Nat) {s : SimState}, topOf w t = some s →
    ∃ place, SimInv w s place ∧ s.time = t ∧ Timeline w t s
  | 0, s, h => by
      have hs : SimState.init w = s := by simpa [topOf] using h
      subst hs
      refine ⟨fun _ => .away, SimInv.init w, rfl, ?_⟩
      intro t' ht'
      exact absurd ht' (Nat.not_lt_zero t')
  | t + 1, s', h => by
      rcases topOf_succ.1 h with ⟨s, htop, htick⟩
      rcases topOf_inv t htop with ⟨place, hinv, htime, hline⟩
      rcases hinv.serving with ⟨m, placeM, hserving, hm⟩
      rcases hinv.tick hserving hm with ⟨s₁, place', htick', hc⟩ | ⟨d, b, place', htick', _⟩
      · have hs : s₁ = s' := by simpa [htick] using htick'.symm
        subst hs
        refine ⟨place', hc.inv, ?_, Timeline.step hinv htop htime hline hserving hm hc⟩
        rw [hc.time, hm.refines.time, htime]
      · simp [htick] at htick'

end Runs

/-! ## Reading the invariant back -/

/-- How often process `p` occurs among the two queues and the two slots. -/
def occurrences (s : SimState) (p : Nat) : Nat :=
  (s.pq.map Prod.snd).count p + (s.ioq.map Prod.snd).count p +
    (if s.processgoingon = true ∧ s.ongoingpid = p then 1 else 0) +
    (if s.ioprocessgoingon = true ∧ s.ioongoingpid = p then 1 else 0)

/-- The bursts of `p` that wait in a queue. -/
def waitingBursts (s : SimState) (p : Nat) : List Nat :=
  ((s.pq ++ s.ioq).filter fun e => e.2 = p).map Prod.fst

/-- All bursts of `p` have been served to the end. -/
def Finished (w : Workload) (s : SimState) (p : Nat) : Prop :=
  (s.services p).map Service.length = w.bursts p ∧ ∀ r ∈ s.services p, r.finish ≤ s.time

instance (w : Workload) (s : SimState) (p : Nat) : Decidable (Finished w s p) :=
  inferInstanceAs (Decidable (_ ∧ _))

section Reading

variable {w : Workload} {s : SimState} {place : Nat → Place}

/-- The entries of one process in one queue. -/
theorem Placed.queue_filter {queue : Device → List (Nat × Nat)}
    {slot : Device → Option (Int × Nat)} (h : Placed queue slot place) (d : Device) (p : Nat) :
    (queue d).filter (fun e => e.2 = p) =
      match place p with
      | .waiting d' burst => if d' = d then [(burst, p)] else []
      | _ => [] := by
  by_cases hwait : ∃ burst, place p = .waiting d burst
  · rcases hwait with ⟨burst, hplace⟩
    have hmem : (burst, p) ∈ queue d := (h.waiting d burst p).2 hplace
    have hsame : (queue d).filter (fun e => e.2 = p) = (queue d).filter (fun e => e = (burst, p)) := by
      apply List.filter_congr
      rintro ⟨b, p'⟩ he
      by_cases hp : p' = p
      · -- One process has one place, hence one burst in the queue.
        subst hp
        have hb : place p' = .waiting d b := (h.waiting d b p').1 he
        have hbb : burst = b := by simpa [hplace] using hb
        simp [hbb]
      · simp [hp]
    rw [hsame, List.filter_eq, List.count_eq_one_of_mem (h.nodup d) hmem]
    simp [hplace]
  · have hnone : (queue d).filter (fun e => e.2 = p) = [] := by
      refine List.filter_eq_nil_iff.2 ?_
      rintro ⟨b, p'⟩ he hp
      have hp' : p' = p := by simpa using hp
      subst hp'
      exact hwait ⟨b, (h.waiting d b p').1 he⟩
    rw [hnone]
    cases hplace : place p with
    | waiting d' burst =>
        have hd : d' ≠ d := fun hd => hwait ⟨burst, hd ▸ hplace⟩
        simp [hd]
    | away => rfl
    | on d' left => rfl
    | finished => rfl

theorem count_snd (l : List (Nat × Nat)) (p : Nat) :
    (l.map Prod.snd).count p = (l.filter fun e => e.2 = p).length := by
  rw [List.count, List.countP_map, List.countP_eq_length_filter]
  rfl

theorem Placed.cpu_iff (h : Placed s.queue s.slot place) (p : Nat) :
    (s.processgoingon = true ∧ s.ongoingpid = p) ↔ ∃ left, place p = .on .cpu left := by
  constructor
  · rintro ⟨hbusy, hpid⟩
    exact ⟨s.waitprocessgoingon, (h.on .cpu p _).1 (by simp [SimState.slot, hbusy, hpid])⟩
  · rintro ⟨left, hplace⟩
    have hslot := (h.on .cpu p left).2 hplace
    by_cases hbusy : s.processgoingon = true
    · have hpair : s.ongoingpid = p ∧ s.waitprocessgoingon = left := by
        simpa [SimState.slot, hbusy] using hslot
      exact ⟨hbusy, hpair.1⟩
    · simp [SimState.slot, hbusy] at hslot

theorem Placed.io_iff (h : Placed s.queue s.slot place) (p : Nat) :
    (s.ioprocessgoingon = true ∧ s.ioongoingpid = p) ↔ ∃ left, place p = .on .io left := by
  constructor
  · rintro ⟨hbusy, hpid⟩
    exact ⟨s.iowaitprocessgoingon, (h.on .io p _).1 (by simp [SimState.slot, hbusy, hpid])⟩
  · rintro ⟨left, hplace⟩
    have hslot := (h.on .io p left).2 hplace
    by_cases hbusy : s.ioprocessgoingon = true
    · have hpair : s.ioongoingpid = p ∧ s.iowaitprocessgoingon = left := by
        simpa [SimState.slot, hbusy] using hslot
      exact ⟨hbusy, hpair.1⟩
    · simp [SimState.slot, hbusy] at hslot

/-- Every place but the first and the last is one occurrence. -/
theorem Placed.occurrences_eq (h : Placed s.queue s.slot place) (p : Nat) :
    occurrences s p = match place p with
      | .away => 0
      | .finished => 0
      | _ => 1 := by
  have hpq := h.queue_filter .cpu p
  have hioq := h.queue_filter .io p
  simp only [SimState.queue] at hpq hioq
  have hcpu := h.cpu_iff p
  have hio := h.io_iff p
  simp only [occurrences, count_snd, hpq, hioq]
  cases hplace : place p with
  | away =>
      rw [if_neg (by simp [hcpu, hplace]), if_neg (by simp [hio, hplace])]
      rfl
  | finished =>
      rw [if_neg (by simp [hcpu, hplace]), if_neg (by simp [hio, hplace])]
      rfl
  | waiting d burst =>
      rw [if_neg (by simp [hcpu, hplace]), if_neg (by simp [hio, hplace])]
      cases d <;> rfl
  | on d left =>
      cases d with
      | cpu =>
          rw [if_pos (by simp [hcpu, hplace]), if_neg (by simp [hio, hplace])]
          rfl
      | io =>
          rw [if_neg (by simp [hcpu, hplace]), if_pos (by simp [hio, hplace])]
          rfl

theorem Placed.waitingBursts_eq (h : Placed s.queue s.slot place) (p : Nat) :
    waitingBursts s p = match place p with
      | .waiting _ burst => [burst]
      | _ => [] := by
  have hpq := h.queue_filter .cpu p
  have hioq := h.queue_filter .io p
  simp only [SimState.queue] at hpq hioq
  simp only [waitingBursts, List.filter_append, hpq, hioq]
  cases place p with
  | away => simp
  | finished => simp
  | waiting d burst => cases d <;> simp
  | on d left => simp

theorem SimInv.conserved (h : SimInv w s place) (p : Nat) :
    (s.services p).map Service.length ++ waitingBursts s p ++ s.process p = w.bursts p := by
  have hacc : Accounted (w.bursts p) ((s.services p).map Service.length) (s.process p) (place p) :=
    (h.life p).accounted
  rw [h.placed.waitingBursts_eq p]
  cases hplace : place p with
  | away =>
      rw [hplace] at hacc
      simp [hacc.1, hacc.2]
  | finished =>
      rw [hplace] at hacc
      simp [hacc.1, hacc.2]
  | waiting d burst =>
      rw [hplace] at hacc
      simpa using hacc.1
  | on d left =>
      rw [hplace] at hacc
      simpa using hacc.1

theorem SimInv.finished_iff (h : SimInv w s place) {p : Nat} (hp : p < w.length) :
    Finished w s p ↔ place p = .finished := by
  have hlife := h.life p
  have hacc : Accounted (w.bursts p) ((s.services p).map Service.length) (s.process p) (place p) :=
    hlife.accounted
  cases hplace : place p with
  | finished =>
      rw [hplace] at hlife hacc
      exact iff_of_true ⟨hacc.1, hlife.timed⟩ rfl
  | away =>
      rw [hplace] at hacc
      refine iff_of_false (fun hf => ?_) (by simp)
      exact w.bursts_ne_nil hp (hf.1 ▸ hacc.1)
  | waiting d burst =>
      rw [hplace] at hacc
      refine iff_of_false (fun hf => ?_) (by simp)
      have hlen := congrArg List.length (hacc.1.trans hf.1.symm)
      simp at hlen
  | on d left =>
      -- The current service ends after this instant.
      have hpos := h.running p d left hplace
      have htimed := hlife.timed
      rw [hplace] at htimed
      rcases htimed with ⟨past, start, length, hserv, hend, _, _⟩
      have hserv' : s.services p = past ++ [⟨d, start, length⟩] := hserv
      refine iff_of_false (fun hf => ?_) (by simp)
      have hover : start + length ≤ s.time := hf.2 ⟨d, start, length⟩ (by simp [hserv'])
      omega

theorem SimInv.occurrences_iff (h : SimInv w s place) (p : Nat) :
    (p < w.length ∧ w.ptot p < s.time ∧ ¬ Finished w s p → occurrences s p = 1) ∧
      (¬ (p < w.length ∧ w.ptot p < s.time ∧ ¬ Finished w s p) → occurrences s p = 0) := by
  have haway := h.away p
  rw [h.placed.occurrences_eq p]
  by_cases hp : p < w.length ∧ w.ptot p < s.time
  · have hfin := h.finished_iff hp.1
    have hne : place p ≠ .away := fun heq => haway.1 heq hp
    cases hplace : place p with
    | away => exact absurd hplace hne
    | finished => simp [hfin, hplace]
    | waiting d burst => simp [hfin, hplace, hp]
    | on d left => simp [hfin, hplace, hp]
  · have hplace : place p = .away := haway.2 hp
    rw [hplace]
    refine ⟨fun hall => absurd ⟨hall.1, hall.2.1⟩ hp, fun _ => rfl⟩

end Reading

/-! ## Main result -/

/-- At the top of every tick: each arrived and unfinished process occurs exactly once and no other
does; dispatched, waiting and remaining bursts make up the original list; the `k`-th burst is
dispatched to the CPU when `k` is even and to the I/O device when `k` is odd; and the ticks in which
a device serves a process are exactly the consecutive ticks of the announced services. -/
theorem sjf_conservation (w : Workload) (t : Nat) (s : SimState) (htop : topOf w t = some s)
    (p : Nat) :
    ((p < w.length ∧ w.ptot p < t ∧ ¬ Finished w s p → occurrences s p = 1) ∧
      (¬ (p < w.length ∧ w.ptot p < t ∧ ¬ Finished w s p) → occurrences s p = 0)) ∧
    (s.services p).map Service.length ++ waitingBursts s p ++ s.process p = w.bursts p ∧
    (∀ k r, (s.services p)[k]? = some r → r.device = if k % 2 = 0 then .cpu else .io) ∧
    (s.services p).Pairwise (fun r r' => r.finish ≤ r'.start) ∧
    ∀ t' < t, ∀ d, servedAt w t' d = some (p : Int) ↔
      ∃ r ∈ s.services p, r.device = d ∧ r.start ≤ t' ∧ t' < r.start + r.length := by
  rcases topOf_inv t htop with ⟨place, hinv, htime, hline⟩
  have hocc := hinv.occurrences_iff p
  rw [htime] at hocc
  refine ⟨hocc, hinv.conserved p, (hinv.life p).alternates, (hinv.life p).ordered, ?_⟩
  intro t' ht' d
  exact hline t' ht' d p

/-- Two processes that keep both devices busy, at the top of tick 3. -/
def twoJobs : Workload :=
  [⟨0, [2, 3, 1], by simp, by simp⟩, ⟨1, [1, 2], by simp, by simp⟩]

theorem sjf_conservation_twoJobs :
    ∃ s, topOf twoJobs 3 = some s ∧ ¬ Finished twoJobs s 0 ∧ occurrences s 0 = 1 ∧
      (s.services 0).map Service.length ++ waitingBursts s 0 ++ s.process 0 = [2, 3, 1] := by
  have htop : topOf twoJobs 3 = some ((topOf twoJobs 3).get (by decide)) := by simp
  have hmain := sjf_conservation twoJobs 3 _ htop 0
  have hunfinished : ¬ Finished twoJobs ((topOf twoJobs 3).get (by decide)) 0 := by decide
  exact ⟨_, htop, hunfinished, hmain.1.1 ⟨by decide, by decide, hunfinished⟩, hmain.2.1⟩

end Sjf
end OsLab
