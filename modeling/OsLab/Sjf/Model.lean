import Mathlib.Logic.Function.Basic
import OsLab.Lib.Loop
import OsLab.Lib.SortedInsert

/-!
# Model — the shortest job first simulator

The event loop `startEvent` of `200010004_sjf.cpp` on the workload that `readdata` leaves in the
global vectors.  One turn of the loop is `tick`, cut at the source's own blocks: arrivals, CPU
dispatch, I/O dispatch, the two countdowns, I/O completion and CPU completion.  The two completions
may `break`.

* Vectors indexed by a process number are functions of the number.
* The priority queue `pq` is the list of its entries, least first: `top()` is the head.
* What `startEvent` prints is the list `log`, oldest line first.
* The time, the bursts and the totals are mathematical integers; in the source they are of type `int`.
* `front()` of an empty `process[pid]` is undefined: the turn fails (`none`).
* `iocheck` is never read and `penalty` is a floating point number that only the report prints; both
  are left out.
-/

namespace OsLab
namespace Sjf

open OsLab.Lib

/-! ## The workload -/

/-- One line of the input: an arrival time and the bursts, CPU and I/O in turn. -/
structure Job where
  arrival : Nat
  bursts : List Nat
  bursts_ne_nil : bursts ≠ []
  bursts_pos : ∀ b ∈ bursts, 1 ≤ b

abbrev Workload : Type :=
  List Job

namespace Workload

def bursts (w : Workload) (pid : Nat) : List Nat :=
  w[pid]?.elim [] Job.bursts

/-- The vector `ptot`: the arrival time of each process. -/
def ptot (w : Workload) (pid : Nat) : Nat :=
  w[pid]?.elim 0 Job.arrival

/-- The entry `arrival[time]` of the map that `readdata` fills line by line. -/
def arrivalsAt (w : Workload) (time : Nat) : List Nat :=
  (List.range w.length).filter fun pid => w.ptot pid = time

end Workload

/-! ## The state -/

/-- A printed line. -/
inductive Event
  | arrived (time pid burst : Nat)
  | scheduled (time pid burst : Nat) (response : Int)
  | ioScheduled (time pid burst : Nat)
  | finished (time : Nat) (printedPid : Int) (turnaround total waiting burst : Int)
  deriving DecidableEq, Repr

structure SimState where
  time : Nat
  pq : List (Nat × Nat)
  ioq : List (Nat × Nat)
  process : Nat → List Nat
  processgoingon : Bool
  ioprocessgoingon : Bool
  waitprocessgoingon : Nat
  iowaitprocessgoingon : Nat
  ongoingpid : Int
  ioongoingpid : Int
  trTime : Nat → Int
  rtimeTotal : Nat → Int
  waitTime : Nat → Int
  btimeTotal : Nat → Int
  ptimeTotal : Nat → Int
  log : List Event

/-- The globals after `readdata`, at the first tick. -/
def SimState.init (w : Workload) : SimState :=
  { time := 0
    pq := []
    ioq := []
    process := w.bursts
    processgoingon := false
    ioprocessgoingon := false
    waitprocessgoingon := 0
    iowaitprocessgoingon := 0
    ongoingpid := -1
    ioongoingpid := -1
    trTime := fun _ => 0
    rtimeTotal := fun _ => -1
    waitTime := fun _ => 0
    btimeTotal := fun _ => 0
    ptimeTotal := fun _ => 0
    log := [] }

/-- The order `greater<pi>` of the priority queue: by burst, then by process number. -/
def pairLt (a b : Nat × Nat) : Bool :=
  a.1 < b.1 || (a.1 == b.1 && a.2 < b.2)

def push (e : Nat × Nat) (pq : List (Nat × Nat)) : List (Nat × Nat) :=
  lowerInsert pairLt e pq

/-! ## One turn of the loop -/

/-- `pq.push(make_pair(process[pid].front(), pid)); process[pid].pop();` -/
def toReady (s : SimState) (pid burst : Nat) (rest : List Nat) : SimState :=
  { s with
    pq := push (burst, pid) s.pq
    process := Function.update s.process pid rest }

/-- `ioq.push(make_pair(process[pid].front(), pid)); process[pid].pop();` -/
def toIo (s : SimState) (pid burst : Nat) (rest : List Nat) : SimState :=
  { s with
    ioq := s.ioq ++ [(burst, pid)]
    process := Function.update s.process pid rest }

def printLine (e : Event) (s : SimState) : SimState :=
  { s with log := s.log ++ [e] }

def arrive (s : SimState) (pid : Nat) : Option SimState :=
  match s.process pid with
  | [] => none
  | burst :: rest => some (printLine (.arrived s.time pid burst) (toReady s pid burst rest))

def arrivals (w : Workload) (s : SimState) : Option SimState :=
  (w.arrivalsAt s.time).foldlM arrive s

/-- The response time is set by the first dispatch only. -/
def response (w : Workload) (s : SimState) (pid : Nat) : Int :=
  if s.rtimeTotal pid = -1 then (s.time : Int) - w.ptot pid else s.rtimeTotal pid

/-- The body of the CPU dispatch, for the top entry of `pq`. -/
def cpuStart (w : Workload) (s : SimState) (burst pid : Nat) (rest : List (Nat × Nat)) : SimState :=
  { s with
    waitprocessgoingon := burst
    ongoingpid := pid
    btimeTotal := Function.update s.btimeTotal pid (s.btimeTotal pid + burst)
    ptimeTotal := Function.update s.ptimeTotal pid (s.ptimeTotal pid + burst)
    rtimeTotal := Function.update s.rtimeTotal pid (response w s pid)
    log := s.log ++ [.scheduled s.time pid burst (response w s pid)]
    pq := rest
    processgoingon := true }

def cpuDispatch (w : Workload) (s : SimState) : SimState :=
  if s.processgoingon then s
  else
    match s.pq with
    | [] => s
    | (burst, pid) :: rest => cpuStart w s burst pid rest

/-- The body of the I/O dispatch, for the front entry of `ioq`. -/
def ioStart (s : SimState) (burst pid : Nat) (rest : List (Nat × Nat)) : SimState :=
  { s with
    iowaitprocessgoingon := burst
    ioongoingpid := pid
    ptimeTotal := Function.update s.ptimeTotal pid (s.ptimeTotal pid + burst)
    log := s.log ++ [.ioScheduled s.time pid burst]
    ioq := rest
    ioprocessgoingon := true }

def ioDispatch (s : SimState) : SimState :=
  if s.ioprocessgoingon then s
  else
    match s.ioq with
    | [] => s
    | (burst, pid) :: rest => ioStart s burst pid rest

def countdown (s : SimState) : SimState :=
  { s with
    waitprocessgoingon := s.waitprocessgoingon - 1
    iowaitprocessgoingon := s.iowaitprocessgoingon - 1 }

/-- The `else` branch of a completion.  Both completions print `ioongoingpid` as the process. -/
def finish (w : Workload) (s : SimState) (pid : Nat) : SimState :=
  let tr := (s.time : Int) - w.ptot pid + 1
  let wait := tr - s.ptimeTotal pid
  { s with
    trTime := Function.update s.trTime pid tr
    waitTime := Function.update s.waitTime pid wait
    log := s.log ++
      [.finished s.time s.ioongoingpid tr (s.ptimeTotal pid) wait (s.btimeTotal pid)] }

/-- The I/O burst is over: the process goes to the ready queue or is finished. -/
def ioBurstOver (w : Workload) (s : SimState) : SimState :=
  match s.process s.ioongoingpid.toNat with
  | [] => finish w s s.ioongoingpid.toNat
  | burst :: rest => toReady s s.ioongoingpid.toNat burst rest

/-- The CPU burst is over: the process goes to the I/O queue or is finished. -/
def cpuBurstOver (w : Workload) (s : SimState) : SimState :=
  match s.process s.ongoingpid.toNat with
  | [] => finish w s s.ongoingpid.toNat
  | burst :: rest => toIo s s.ongoingpid.toNat burst rest

/-- The test in front of both `break`s. -/
def queuesEmpty (s : SimState) : Bool :=
  s.pq.isEmpty && s.ioq.isEmpty

/-- `inr` is the `break`, which leaves the device's flag set. -/
def ioComplete (w : Workload) (s : SimState) : SimState ⊕ SimState :=
  if s.ioprocessgoingon && s.iowaitprocessgoingon == 0 then
    let s' := ioBurstOver w s
    if queuesEmpty s' then .inr s' else .inl { s' with ioprocessgoingon := false }
  else .inl s

def cpuComplete (w : Workload) (s : SimState) : SimState ⊕ SimState :=
  if s.processgoingon && s.waitprocessgoingon == 0 then
    let s' := cpuBurstOver w s
    if queuesEmpty s' then .inr s' else .inl { s' with processgoingon := false }
  else .inl s

/-- The state in which the bursts of this tick are served: arrivals and dispatches are done. -/
def serving (w : Workload) (s : SimState) : Option SimState :=
  (arrivals w s).map fun s => ioDispatch (cpuDispatch w s)

def tick (w : Workload) (s : SimState) : Option (SimState ⊕ SimState) :=
  (serving w s).map fun s =>
    match ioComplete w (countdown s) with
    | .inr s => .inr s
    | .inl s =>
        match cpuComplete w s with
        | .inr s => .inr s
        | .inl s => .inl { s with time := s.time + 1 }

/-! ## Whole runs -/

/-- The event loop, for at most `fuel` ticks; the result is the state at the `break`. -/
def startEvent (w : Workload) (fuel : Nat) : Option SimState :=
  loop (tick w) fuel (SimState.init w)

/-- The state at the top of tick `t`; none when the loop was left before. -/
def topOf (w : Workload) : Nat → Option SimState
  | 0 => some (SimState.init w)
  | t + 1 => (topOf w t).bind fun s => (tick w s).bind fun r => r.elim some (fun _ => none)

end Sjf
end OsLab
