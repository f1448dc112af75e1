import OsLab.Lib.BackToBack
import OsLab.Sjf.Accounting

/-!
# Optimality — shortest job first on a batch

A batch is a workload whose processes all arrive at time 0 with a single CPU burst each.  The first
tick pushes every process to `pq`, and from then on the run is told by `pq` as it was filled: the
entries in front have been served back to back, the next one is on the CPU, and the others wait
(`Running`).  So the processes run in the order of their bursts, and the library says that no other
order of running them waits less.
-/

namespace OsLab
namespace Sjf

open OsLab.Lib

structure Batch (w : Workload) : Prop where
  arrival : ∀ job ∈ w, job.arrival = 0
  single : ∀ job ∈ w, job.bursts.length = 1

namespace Workload

/-- The only burst of a process of a batch. -/
def burst (w : Workload) (p : Nat) : Nat :=
  (w.bursts p).headD 0

def entries (w : Workload) : List (Nat × Nat) :=
  (List.range w.length).map fun p => (w.burst p, p)

/-- The ready queue when every process has arrived. -/
def ready (w : Workload) : List (Nat × Nat) :=
  w.entries.foldl (fun pq e => push e pq) []

end Workload

section Queue

variable {w : Workload}

theorem Batch.ptot (hw : Batch w) (p : Nat) : w.ptot p = 0 := by
  cases hjob : w[p]? with
  | none => simp [Workload.ptot, hjob]
  | some job => simpa [Workload.ptot, hjob] using hw.arrival job (List.mem_of_getElem? hjob)

theorem Batch.bursts (hw : Batch w) {p : Nat} (hp : p < w.length) : w.bursts p = [w.burst p] := by
  have hjob : w[p]? = some w[p] := List.getElem?_eq_getElem hp
  rcases List.length_eq_one_iff.1 (hw.single w[p] (List.getElem_mem hp)) with ⟨b, hb⟩
  simp [Workload.burst, Workload.bursts, hjob, hb]

theorem Batch.burst_pos (hw : Batch w) {p : Nat} (hp : p < w.length) : 1 ≤ w.burst p := by
  apply w.bursts_pos p
  rw [hw.bursts hp]
  exact List.mem_singleton_self _

/-! ## The ready queue of a batch -/

theorem foldl_push_perm (es pq : List (Nat × Nat)) :
    (es.foldl (fun pq e => push e pq) pq).Perm (es ++ pq) := by
  induction es generalizing pq with
  | nil => exact List.Perm.refl pq
  | cons e es ih =>
      have hpush : (es ++ push e pq).Perm (es ++ e :: pq) := (push_perm e pq).append_left es
      exact ((ih (push e pq)).trans hpush).trans List.perm_middle

theorem ready_perm (w : Workload) : w.ready.Perm w.entries := by
  simpa [Workload.ready] using foldl_push_perm w.entries []

theorem mem_entries {e : Nat × Nat} : e ∈ w.entries ↔ e.2 < w.length ∧ e.1 = w.burst e.2 := by
  rcases e with ⟨b, p⟩
  simp [Workload.entries, eq_comm]

theorem entries_map_snd (w : Workload) : w.entries.map Prod.snd = List.range w.length := by
  simp [Workload.entries, Function.comp_def]

theorem ready_nodup (w : Workload) : (w.ready.map Prod.snd).Nodup := by
  rw [((ready_perm w).map Prod.snd).nodup_iff, entries_map_snd]
  exact List.nodup_range

theorem pairLt_iff {a b : Nat × Nat} :
    pairLt a b = true ↔ a.1 < b.1 ∨ (a.1 = b.1 ∧ a.2 < b.2) := by
  simp [pairLt]

theorem pairLt_trans (a b c : Nat × Nat) (hab : pairLt a b = true) (hbc : pairLt b c = true) :
    pairLt a c = true := by
  rw [pairLt_iff] at *
  omega

/-- Entries of different processes are pushed to a sorted queue. -/
theorem foldl_push_sorted {es pq : List (Nat × Nat)}
    (hnodup : ((es ++ pq).map Prod.snd).Nodup) (hpq : pq.Pairwise fun a b => pairLt a b = true) :
    (es.foldl (fun pq e => push e pq) pq).Pairwise fun a b => pairLt a b = true := by
  induction es generalizing pq with
  | nil => exact hpq
  | cons e es ih =>
      have hperm : (es ++ push e pq).Perm (e :: es ++ pq) :=
        ((push_perm e pq).append_left es).trans List.perm_middle
      refine ih ((hperm.map Prod.snd).nodup_iff.2 hnodup) ?_
      refine lowerInsert_pairwise pairLt pairLt_trans hpq ?_
      intro a ha
      rw [List.cons_append, List.map_cons, List.nodup_cons] at hnodup
      have hne : a.2 ≠ e.2 := by
        intro heq
        exact hnodup.1 (heq ▸ List.mem_map_of_mem (List.mem_append_right es ha))
      rw [pairLt_iff, pairLt_iff]
      omega

theorem ready_sorted (w : Workload) : (w.ready.map Prod.fst).Pairwise (· ≤ ·) := by
  have hnodup : ((w.entries ++ []).map Prod.snd).Nodup := by
    rw [List.append_nil, entries_map_snd]
    exact List.nodup_range
  refine List.pairwise_map.2 ((foldl_push_sorted hnodup List.Pairwise.nil).imp ?_)
  intro a b hab
  rcases pairLt_iff.1 hab with hlt | ⟨heq, _⟩
  · exact Nat.le_of_lt hlt
  · exact Nat.le_of_eq heq

end Queue

/-! ## The run -/

/-- The entries `done` have been served, and those of `todo` wait for the idle CPU. -/
structure Idle (w : Workload) (done todo : List (Nat × Nat)) (s : SimState) : Prop where
  split : done ++ todo = w.ready
  queue : s.pq = todo
  cpu : s.processgoingon = false
  io : s.ioprocessgoingon = false ∧ s.ioq = []
  process : s.process = fun _ => []
  time : s.time = (done.map Prod.fst).sum
  ptime : ∀ e ∈ todo, s.ptimeTotal e.2 = 0
  waits : done.map (fun e => s.waitTime e.2) = (startTimes 0 (done.map Prod.fst)).map Nat.cast

/-- The entry `cur` is on the CPU, with `left` ticks to go. -/
structure Running (w : Workload) (done : List (Nat × Nat)) (cur : Nat × Nat)
    (rest : List (Nat × Nat)) (left : Nat) (m : SimState) : Prop where
  split : done ++ cur :: rest = w.ready
  queue : m.pq = rest
  cpu : m.processgoingon = true ∧ m.ongoingpid = cur.2 ∧ m.waitprocessgoingon = left
  io : m.ioprocessgoingon = false ∧ m.ioq = []
  process : m.process = fun _ => []
  time : m.time + left = (done.map Prod.fst).sum + cur.1
  left_pos : 1 ≤ left
  ptime_cur : m.ptimeTotal cur.2 = cur.1
  ptime : ∀ e ∈ rest, m.ptimeTotal e.2 = 0
  waits : done.map (fun e => m.waitTime e.2) = (startTimes 0 (done.map Prod.fst)).map Nat.cast

section Run

variable {w : Workload} {done rest : List (Nat × Nat)} {cur : Nat × Nat} {left : Nat}
variable {s m : SimState}

theorem ready_split_ne (hsplit : done ++ cur :: rest = w.ready) :
    (∀ e ∈ done, e.2 ≠ cur.2) ∧ ∀ e ∈ rest, e.2 ≠ cur.2 := by
  have hnodup := ready_nodup w
  rw [← hsplit, List.map_append, List.map_cons, List.nodup_append] at hnodup
  rcases hnodup with ⟨_, htail, hcross⟩
  constructor
  · intro e he
    exact hcross e.2 (List.mem_map_of_mem he) cur.2 List.mem_cons_self
  · intro e he heq
    exact (List.nodup_cons.1 htail).1 (heq ▸ List.mem_map_of_mem he)

theorem Batch.cur_pos (hw : Batch w) (hsplit : done ++ cur :: rest = w.ready) : 1 ≤ cur.1 := by
  have hmem : cur ∈ w.entries := by
    rw [← (ready_perm w).mem_iff, ← hsplit]
    simp
  rcases mem_entries.1 hmem with ⟨hp, hburst⟩
  rw [hburst]
  exact hw.burst_pos hp

/-- The dispatch takes the first of the waiting entries. -/
theorem Idle.dispatch (hw : Batch w) (h : Idle w done (cur :: rest) s) :
    Running w done cur rest cur.1 (ioDispatch (cpuDispatch w s)) := by
  have hcpu : cpuDispatch w s = cpuStart w s cur.1 cur.2 rest := by
    simp [cpuDispatch, h.cpu, h.queue]
  have hio : ioDispatch (cpuStart w s cur.1 cur.2 rest) = cpuStart w s cur.1 cur.2 rest := by
    simp [ioDispatch, cpuStart, h.io]
  have hne := (ready_split_ne h.split).2
  rw [hcpu, hio]
  refine
    { split := h.split
      queue := rfl
      cpu := ⟨rfl, rfl, rfl⟩
      io := h.io
      process := h.process
      time := by rw [← h.time]; rfl
      left_pos := hw.cur_pos h.split
      ptime_cur := ?_
      ptime := ?_
      waits := h.waits }
  · simp [cpuStart, h.ptime cur List.mem_cons_self]
  · intro e he
    simp [cpuStart, Function.update_of_ne (hne e he), h.ptime e (List.mem_cons_of_mem _ he)]

/-- The entry on the CPU is finished: it has waited for all the entries in front of it. -/
theorem Running.finish_waits (hw : Batch w) (h : Running w done cur rest 1 m) :
    (done ++ [cur]).map (fun e => (finish w (countdown m) cur.2).waitTime e.2) =
      (startTimes 0 ((done ++ [cur]).map Prod.fst)).map Nat.cast := by
  have hkeep : done.map (fun e => (finish w (countdown m) cur.2).waitTime e.2) =
      done.map fun e => m.waitTime e.2 := by
    refine List.map_congr_left ?_
    intro e he
    exact Function.update_of_ne ((ready_split_ne h.split).1 e he) _ _
  have hlast : (finish w (countdown m) cur.2).waitTime cur.2 = ((done.map Prod.fst).sum : Nat) := by
    have htime := h.time
    have hptime : (countdown m).ptimeTotal cur.2 = cur.1 := h.ptime_cur
    simp only [finish, Function.update_self, hptime, hw.ptot cur.2]
    simp only [countdown]
    omega
  rw [List.map_append, hkeep, h.waits, List.map_append, List.map_singleton, List.map_singleton,
    startTimes_concat, List.map_append, List.map_singleton, hlast, Nat.zero_add]

theorem Batch.arrivals_late (hw : Batch w) (htime : 1 ≤ s.time) : arrivals w s = some s := by
  have hnone : w.arrivalsAt s.time = [] := by
    refine List.filter_eq_nil_iff.2 ?_
    intro p _
    simp [hw.ptot p]
    omega
  rw [arrivals, hnone]
  rfl

/-- The waiting times of all processes, in the order in which they ran. -/
def WaitsInOrder (w : Workload) (b : SimState) : Prop :=
  w.ready.map (fun e => b.waitTime e.2) = (startTimes 0 (w.ready.map Prod.fst)).map Nat.cast

/-- Nothing happens at the I/O device. -/
theorem Running.io_idle (h : Running w done cur rest left m) :
    ioComplete w (countdown m) = .inl (countdown m) := by
  simp [ioComplete, countdown, h.io]

/-- The last tick of a burst completes its process. -/
theorem Running.cpu_over (h : Running w done cur rest 1 m) :
    cpuComplete w (countdown m) =
      if rest.isEmpty then .inr (finish w (countdown m) cur.2)
      else .inl { finish w (countdown m) cur.2 with processgoingon := false } := by
  rcases h.cpu with ⟨hbusy, hpid, hleft⟩
  have hover : cpuBurstOver w (countdown m) = finish w (countdown m) cur.2 := by
    simp [cpuBurstOver, countdown, hpid, h.process]
  have hempty : queuesEmpty (finish w (countdown m) cur.2) = rest.isEmpty := by
    simp [queuesEmpty, finish, countdown, h.queue, h.io]
  rw [← hempty, ← hover]
  simp [cpuComplete, countdown, hbusy, hleft]

/-- The state behind the release of the CPU, at the top of the next tick. -/
theorem Running.released (hw : Batch w) (h : Running w done cur rest 1 m) :
    Idle w (done ++ [cur]) rest
      { finish w (countdown m) cur.2 with
        processgoingon := false
        time := m.time + 1 } := by
  refine ⟨by simpa using h.split, h.queue, rfl, h.io, h.process, ?_, h.ptime, h.finish_waits hw⟩
  simpa using h.time

/-- A tick in the middle of a burst. -/
theorem Running.goes_on (h : Running w done cur rest left m) (hmore : 2 ≤ left) :
    Running w done cur rest (left - 1) { countdown m with time := m.time + 1 } := by
  rcases h.cpu with ⟨hbusy, hpid, hleft⟩
  have htime := h.time
  refine
    { split := h.split
      queue := h.queue
      cpu := ⟨hbusy, hpid, by simp [countdown, hleft]⟩
      io := h.io
      process := h.process
      time := ?_
      left_pos := by omega
      ptime_cur := h.ptime_cur
      ptime := h.ptime
      waits := h.waits }
  change m.time + 1 + (left - 1) = _
  omega

/-- One tick: the burst goes on, the next entry is dispatched, or the last one is finished. -/
theorem Running.tick (hw : Batch w) (h : Running w done cur rest left m)
    (hserving : serving w s = some m) :
    (∃ s' m' done' cur' rest' left', tick w s = some (.inl s') ∧ serving w s' = some m' ∧
        Running w done' cur' rest' left' m') ∨
      ∃ b, tick w s = some (.inr b) ∧ WaitsInOrder w b := by
  rcases h.cpu with ⟨hbusy, hpid, hleft⟩
  by_cases hlast : left = 1
  · subst hlast
    cases rest with
    | nil =>
        right
        refine ⟨finish w (countdown m) cur.2,
          by simp [Sjf.tick, hserving, h.io_idle, h.cpu_over], ?_⟩
        rw [WaitsInOrder, ← h.split]
        exact h.finish_waits hw
    | cons next rest =>
        left
        -- The CPU is released, and the next tick dispatches the first of the queue.
        refine ⟨_, _, _, _, _, _, by simp [Sjf.tick, hserving, h.io_idle, h.cpu_over]; rfl, ?_,
          (h.released hw).dispatch hw⟩
        rw [serving, hw.arrivals_late (Nat.le_add_left 1 m.time)]
        rfl
  · left
    have hmore : 2 ≤ left := by
      have hpos := h.left_pos
      omega
    have hcpu : cpuComplete w (countdown m) = .inl (countdown m) := by
      have hne : left - 1 ≠ 0 := by omega
      simp [cpuComplete, countdown, hleft, hne]
    refine ⟨{ countdown m with time := m.time + 1 }, { countdown m with time := m.time + 1 }, done,
      cur, rest, left - 1, by simp [Sjf.tick, hserving, h.io_idle, hcpu]; rfl, ?_, h.goes_on hmore⟩
    rw [serving, hw.arrivals_late (Nat.le_add_left 1 m.time)]
    simp [cpuDispatch, ioDispatch, countdown, hbusy, h.io]

/-- All processes of a batch arrive in the first tick. -/
theorem arriveAll_batch : ∀ (pids : List Nat) {s : SimState}, pids.Nodup →
    (∀ p ∈ pids, s.process p = [w.burst p]) →
    ∃ log, pids.foldlM arrive s = some { s with
      pq := (pids.map fun p => (w.burst p, p)).foldl (fun pq e => push e pq) s.pq
      process := fun p => if p ∈ pids then [] else s.process p
      log := log }
  | [], s, _, _ => ⟨s.log, by simp⟩
  | pid :: pids, s, hnodup, hbursts => by
      have hpid := (List.nodup_cons.1 hnodup).1
      have hone : arrive s pid = some (printLine (.arrived s.time pid (w.burst pid))
          (toReady s pid (w.burst pid) [])) := by
        simp [arrive, hbursts pid List.mem_cons_self]
      have hothers : ∀ p ∈ pids, (printLine (.arrived s.time pid (w.burst pid))
          (toReady s pid (w.burst pid) [])).process p = [w.burst p] := by
        intro p hp
        have hne : p ≠ pid := fun heq => hpid (heq ▸ hp)
        simp [printLine, toReady, hne, hbursts p (List.mem_cons_of_mem _ hp)]
      rcases arriveAll_batch pids (List.nodup_cons.1 hnodup).2 hothers with ⟨log, hall⟩
      refine ⟨log, ?_⟩
      rw [List.foldlM_cons, hone, Option.bind_eq_bind, Option.bind_some, hall]
      congr 1
      simp only [printLine, toReady, SimState.mk.injEq, List.map_cons, List.foldl_cons, true_and,
        and_true]
      funext p
      by_cases hp : p = pid
      · simp [hp]
      · simp [hp]

theorem Batch.init (hw : Batch w) (hne : w ≠ []) :
    ∃ m cur rest, serving w (SimState.init w) = some m ∧ Running w [] cur rest cur.1 m := by
  have hall : w.arrivalsAt 0 = List.range w.length := by
    refine List.filter_eq_self.2 ?_
    intro p _
    simp [hw.ptot p]
  have hbursts : ∀ p ∈ List.range w.length, (SimState.init w).process p = [w.burst p] :=
    fun p hp => hw.bursts (List.mem_range.1 hp)
  rcases arriveAll_batch (List.range w.length) List.nodup_range hbursts with ⟨log, harrive⟩
  have hready : w.ready ≠ [] := by
    intro hnil
    have hlength := (ready_perm w).length_eq
    simp [hnil, Workload.entries] at hlength
    exact hne (List.length_eq_zero_iff.1 hlength.symm)
  cases hsplit : w.ready with
  | nil => exact absurd hsplit hready
  | cons cur rest =>
      have hidle : Idle w [] (cur :: rest) { SimState.init w with
          pq := w.ready
          process := fun p => if p ∈ List.range w.length then [] else w.bursts p
          log := log } := by
        refine ⟨hsplit.symm, hsplit, rfl, ⟨rfl, rfl⟩, ?_, rfl, fun _ _ => rfl, rfl⟩
        funext p
        by_cases hp : p < w.length
        · simp [hp]
        · simp [hp, Workload.bursts]
      refine ⟨_, cur, rest, ?_, hidle.dispatch hw⟩
      rw [serving, arrivals, show (SimState.init w).time = 0 from rfl, hall, harrive]
      rfl

theorem topOf_running (hw : Batch w) (hne : w ≠ []) : ∀ (t : Nat) {s : SimState},
    topOf w t = some s → ∃ m done cur rest left, serving w s = some m ∧
      Running w done cur rest left m
  | 0, s, h => by
      have hs : SimState.init w = s := by simpa [topOf] using h
      subst hs
      rcases hw.init hne with ⟨m, cur, rest, hserving, hrunning⟩
      exact ⟨m, [], cur, rest, cur.1, hserving, hrunning⟩
  | t + 1, s', h => by
      rcases topOf_succ.1 h with ⟨s, htop, htick⟩
      rcases topOf_running hw hne t htop with ⟨m, done, cur, rest, left, hserving, hrunning⟩
      rcases hrunning.tick hw hserving with
        ⟨s₁, m', done', cur', rest', left', htick', hserving', hrunning'⟩ | ⟨b, htick', _⟩
      · have hs : s₁ = s' := by simpa [htick] using htick'.symm
        subst hs
        exact ⟨m', done', cur', rest', left', hserving', hrunning'⟩
      · simp [htick] at htick'

/-- At the `break` every process of the batch is complete, and the waiting times are those of running
the bursts back to back, shortest first. -/
theorem Batch.stop (hw : Batch w) (hne : w ≠ []) {fuel : Nat} {b : SimState}
    (hb : startEvent w fuel = some b) : Complete w b ∧ WaitsInOrder w b := by
  rcases startEvent_stop hb with ⟨t, s, htop, htick⟩
  rcases topOf_running hw hne t htop with ⟨m, done, cur, rest, left, hserving, hrunning⟩
  constructor
  · rcases topOf_inv t htop with ⟨place, hinv, _, _⟩
    rcases hinv.serving with ⟨m', placeM, hserving', hm⟩
    have hmm : m' = m := by simpa [hserving] using hserving'.symm
    subst hmm
    rcases hinv.tick hserving hm with ⟨s', place', htick', _⟩ | ⟨d, b', place', htick', hstop⟩
    · simp [htick] at htick'
    · have hbb : b' = b := by simpa [htick] using htick'.symm
      subst hbb
      have hio : m'.slot .io = none := by simp [SimState.slot, hrunning.io]
      refine (hstop.complete_iff hinv hm).2 ⟨fun p _ => by simp [hw.ptot p], ?_⟩
      rcases hstop.slot_self hm with ⟨i, hself, _⟩
      cases d with
      | cpu => exact hio
      | io => simp [hio] at hself
  · rcases hrunning.tick hw hserving with
      ⟨s', _, _, _, _, _, htick', _⟩ | ⟨b', htick', hwaits⟩
    · simp [htick] at htick'
    · have hbb : b' = b := by simpa [htick] using htick'.symm
      exact hbb ▸ hwaits

end Run

/-! ## The total waiting time -/

/-- The sum of the recorded `wait_time` values. -/
def totalWaitTime (w : Workload) (b : SimState) : Int :=
  ((List.range w.length).map b.waitTime).sum

section Total

variable {w : Workload}

theorem totalWaitTime_eq {b : SimState} (hwaits : WaitsInOrder w b) :
    totalWaitTime w b = (totalWait (w.ready.map Prod.fst) : Nat) := by
  have hentries : (List.range w.length).map b.waitTime =
      w.entries.map fun e => b.waitTime e.2 := by
    simp [Workload.entries, Function.comp_def]
  calc
    totalWaitTime w b = (w.entries.map fun e => b.waitTime e.2).sum := by
      rw [totalWaitTime, hentries]
    _ = (w.ready.map fun e => b.waitTime e.2).sum := ((ready_perm w).map _).sum_eq.symm
    _ = ((startTimes 0 (w.ready.map Prod.fst)).map Nat.cast).sum := by rw [hwaits]
    _ = (totalWait (w.ready.map Prod.fst) : Nat) := (Nat.cast_list_sum _).symm

theorem Batch.bursts_eq (hw : Batch w) : w.flatMap Job.bursts = w.entries.map Prod.fst := by
  have hhead : w.flatMap Job.bursts = w.map fun job => job.bursts.headD 0 := by
    rw [List.map_eq_flatMap]
    refine List.flatMap_congr ?_
    intro job hjob
    rcases List.length_eq_one_iff.1 (hw.single job hjob) with ⟨b, hb⟩
    simp [hb]
  rw [hhead, Workload.entries, List.map_map]
  refine List.ext_getElem (by simp) ?_
  intro p hp hp'
  have hlt : p < w.length := by simpa using hp
  simp [Workload.burst, Workload.bursts, hlt]

theorem Batch.bursts_perm (hw : Batch w) :
    (w.flatMap Job.bursts).Perm (w.ready.map Prod.fst) := by
  rw [hw.bursts_eq]
  exact ((ready_perm w).map Prod.fst).symm

theorem Batch.finished (hw : Batch w) {b : SimState} {p : Nat} (hcomplete : ProcessComplete w b p) :
    b.trTime p ≠ 0 := by
  rcases hcomplete.turnaround with ⟨past, r, hservices, htr⟩
  have hlength : 1 ≤ r.length := by
    apply w.bursts_pos p
    rw [← hcomplete.served, hservices]
    simp
  rw [htr, hw.ptot p, Service.finish]
  omega

theorem Batch.perm (hw : Batch w) {w' : Workload} (hperm : w'.Perm w) : Batch w' where
  arrival := fun job hjob => hw.arrival job (hperm.mem_iff.1 hjob)
  single := fun job hjob => hw.single job (hperm.mem_iff.1 hjob)

end Total

/-- **Optimality.**  On a batch the loop stops with every process complete, no order of running the
same bursts back to back has a smaller total waiting time, and the total does not depend on the order
of the lines in the file. -/
theorem sjf_optimal (w : Workload) (hne : w ≠ []) (harrival : ∀ job ∈ w, job.arrival = 0)
    (hsingle : ∀ job ∈ w, job.bursts.length = 1) :
    (∃ fuel b, startEvent w fuel = some b) ∧
    ∀ fuel b, startEvent w fuel = some b →
      Complete w b ∧ (∀ p, p < w.length → b.trTime p ≠ 0) ∧
      (∀ order : List Nat, order.Perm (w.flatMap Job.bursts) →
        totalWaitTime w b ≤ (totalWait order : Nat)) ∧
      ∀ w' : Workload, w'.Perm w → ∀ fuel' b', startEvent w' fuel' = some b' →
        totalWaitTime w' b' = totalWaitTime w b := by
  have hw : Batch w := ⟨harrival, hsingle⟩
  refine ⟨startEvent_terminates hne, ?_⟩
  intro fuel b hb
  rcases hw.stop hne hb with ⟨hcomplete, hwaits⟩
  refine ⟨hcomplete, fun p hp => hw.finished (hcomplete p hp), ?_, ?_⟩
  · intro order horder
    rw [totalWaitTime_eq hwaits]
    exact Int.ofNat_le.2 (totalWait_le_of_sorted (ready_sorted w) (horder.trans hw.bursts_perm))
  · intro w' hperm fuel' b' hb'
    have hw' := hw.perm hperm
    have hne' : w' ≠ [] := fun hnil => hne (List.Perm.eq_nil (hnil ▸ hperm).symm)
    rw [totalWaitTime_eq (hw'.stop hne' hb').2, totalWaitTime_eq hwaits]
    have hready : (w'.ready.map Prod.fst).Perm (w.ready.map Prod.fst) :=
      (hw'.bursts_perm.symm.trans (hperm.flatMap_right _)).trans hw.bursts_perm
    exact congrArg Nat.cast (Nat.le_antisymm
      (totalWait_le_of_sorted (ready_sorted w') hready.symm)
      (totalWait_le_of_sorted (ready_sorted w) hready))

/-- Bursts of 2 and 1: the recorded total is 1, and running the 2 first would give 2. -/
theorem sjf_optimal_sharedCpu :
    ∃ b, startEvent sharedCpu 3 = some b ∧ totalWaitTime sharedCpu b = 1 ∧
      totalWaitTime sharedCpu b ≤ (totalWait [2, 1] : Nat) ∧ totalWait [2, 1] = 2 := by
  have hrun : startEvent sharedCpu 3 = some ((startEvent sharedCpu 3).get (by decide)) := by simp
  rcases (sjf_optimal sharedCpu (by simp [sharedCpu]) (by simp [sharedCpu, Job.single])
    (by simp [sharedCpu, Job.single])).2 3 _ hrun with ⟨_, _, hleast, _⟩
  exact ⟨_, hrun, by decide, hleast [2, 1] (by decide), by decide⟩

end Sjf
end OsLab
