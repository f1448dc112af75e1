import Mathlib.Algebra.Group.Nat.Defs
import Mathlib.Logic.Function.Basic

/-!
# Model — the scheduling server and the kernel call behind it

`Lab-05/schedule.c`, the policy of the user-space scheduler SCHED, and `sched_proc` of
`Lab-05/system.c`, the kernel's side of `sys_schedule`.

* The fields of a `schedproc` slot are 32-bit unsigned, so they wrap around.
* The kernel's answers are part of the event that a handler serves.  `do_start_scheduling` repeats
  its call as long as the kernel answers `EBADCPU`; when the answers run out, it is still waiting and
  the server takes no further event.
* `accept_message` and the two endpoint checks are in a file that is not part of the laboratory;
  they are parameters, and so are the machine's constants.
* Every call of `sys_schedule` is recorded, with the priority that its slot had at that moment.
-/

namespace OsLab
namespace Sched

/-! ## Constants -/

def OK : Int := 0
def EPERM : Int := -1
def EINVAL : Int := -22

def SCHEDULE_CHANGE_PRIO : Nat := 0x1
def SCHEDULE_CHANGE_QUANTUM : Nat := 0x2
def SCHEDULE_CHANGE_CPU : Nat := 0x4
def SCHEDULE_CHANGE_ALL : Nat :=
  SCHEDULE_CHANGE_PRIO ||| SCHEDULE_CHANGE_QUANTUM ||| SCHEDULE_CHANGE_CPU

def CPU_DEAD : UInt32 := 0xffffffff
def DEFAULT_USER_TIME_SLICE : UInt32 := 200
def IN_USE : Nat := 0x1

/-- The value of an unsigned field that is assigned to an `int`. -/
def toSigned (x : UInt32) : Int :=
  x.toBitVec.toInt

/-! ## State -/

/-- `struct schedproc` -/
structure Schedproc where
  endpoint : Int
  parent : Int
  flags : Nat
  maxPriority : UInt32
  priority : UInt32
  timeSlice : UInt32
  cpu : UInt32
  deriving DecidableEq, Repr

def Schedproc.InUse (p : Schedproc) : Prop :=
  p.flags &&& IN_USE ≠ 0

instance (p : Schedproc) : Decidable p.InUse :=
  inferInstanceAs (Decidable (_ ≠ _))

/-- A call of `sys_schedule` from `schedule_process`, with the flags it was made for and the priority
of the slot. -/
structure SysSchedule where
  endpoint : Int
  flags : Nat
  newPrio : Int
  newQuantum : Int
  newCpu : Int
  slotPrio : UInt32
  deriving DecidableEq, Repr

structure State where
  schedproc : Nat → Schedproc
  cpuProc : Nat → UInt32
  sent : List SysSchedule
  /-- The server waits for the kernel inside `do_start_scheduling`. -/
  waiting : Bool

/-- The machine, the kernel's constants and the code outside `schedule.c`. -/
structure Config where
  EBADEPT : Int
  EBADCPU : Int
  NR_PROCS : Nat
  NR_SCHED_QUEUES : Nat
  USER_Q : UInt32
  RS_PROC_NR : Int
  CONFIG_SMP : Bool
  processors_count : Nat
  bsp_id : UInt32
  /-- `accept_message`, which looks at the sender. -/
  acceptMessage : Int → Bool
  /-- `sched_isokendpt`: the slot of a process that is scheduled. -/
  isokendpt : (Nat → Schedproc) → Int → Except Int Nat
  /-- `sched_isemtyendpt`: the slot for a process that is not. -/
  isemtyendpt : (Nat → Schedproc) → Int → Except Int Nat
  two_queues : 2 ≤ NR_SCHED_QUEUES
  queues_fit : NR_SCHED_QUEUES ≤ 2 ^ 31

def Config.MIN_USER_Q (cfg : Config) : Nat :=
  cfg.NR_SCHED_QUEUES - 1

/-- Assign to fields of a slot. -/
def State.modify (st : State) (n : Nat) (f : Schedproc → Schedproc) : State :=
  { st with schedproc := Function.update st.schedproc n (f (st.schedproc n)) }

section Handlers

variable (cfg : Config)

/-- The loop of `pick_cpu`: the least loaded processor other than the boot processor. -/
def leastLoaded (cpuProc : Nat → UInt32) : UInt32 :=
  let pick := fun (best : UInt32 × UInt32) (c : Nat) =>
    -- `cpu_is_available` compares an unsigned number with zero.
    if ¬ cpuProc c ≥ 0 then best
    else if UInt32.ofNat c ≠ cfg.bsp_id ∧ best.2 > cpuProc c then (UInt32.ofNat c, cpuProc c)
    else best
  ((List.range cfg.processors_count).foldl pick (cfg.bsp_id, 0xffffffff)).1

def pickCpu (st : State) (n : Nat) : State :=
  if cfg.CONFIG_SMP = false then st.modify n fun p => { p with cpu := 0 }
  else if cfg.processors_count = 1 then st.modify n fun p => { p with cpu := cfg.bsp_id }
  else if (st.schedproc n).parent = cfg.RS_PROC_NR then
    st.modify n fun p => { p with cpu := cfg.bsp_id }
  else
    let cpu := leastLoaded cfg st.cpuProc
    { st.modify n fun p => { p with cpu := cpu } with
      cpuProc := Function.update st.cpuProc cpu.toNat (st.cpuProc cpu.toNat + 1) }

/-- `schedule_process`; it returns whatever the kernel answers. -/
def scheduleProcess (st : State) (n : Nat) (flags : Nat) : State :=
  let st := pickCpu cfg st n
  let p := st.schedproc n
  let newPrio := if flags &&& SCHEDULE_CHANGE_PRIO ≠ 0 then toSigned p.priority else -1
  let newQuantum := if flags &&& SCHEDULE_CHANGE_QUANTUM ≠ 0 then toSigned p.timeSlice else -1
  let newCpu := if flags &&& SCHEDULE_CHANGE_CPU ≠ 0 then toSigned p.cpu else -1
  { st with sent := st.sent ++ [⟨p.endpoint, flags, newPrio, newQuantum, newCpu, p.priority⟩] }

def scheduleProcessLocal (st : State) (n : Nat) : State :=
  scheduleProcess cfg st n ( SCHEDULE_CHANGE_PRIO ||| SCHEDULE_CHANGE_QUANTUM)

def doNoquantum (st : State) (source reply : Int) : Int × State :=
  match cfg.isokendpt st.schedproc source with
  | .error _ => (cfg.EBADEPT, st)
  | .ok n =>
      let st :=
        if (st.schedproc n).priority.toNat < cfg.MIN_USER_Q then
          st.modify n fun p => { p with priority := p.priority - 1 }
        else st
      (reply, scheduleProcessLocal cfg st n)

def doStopScheduling (st : State) (source endpoint : Int) : Int × State :=
  if cfg.acceptMessage source = false then (EPERM, st)
  else
    match cfg.isokendpt st.schedproc endpoint with
    | .error _ => (cfg.EBADEPT, st)
    | .ok n =>
        let cpu := (st.schedproc n).cpu.toNat
        let st :=
          if cfg.CONFIG_SMP then
            { st with cpuProc := Function.update st.cpuProc cpu (st.cpuProc cpu - 1) }
          else st
        (OK, st.modify n fun p => { p with flags := 0 })

def doNice (st : State) (source endpoint : Int) (newQ : UInt32) (reply : Int) : Int × State :=
  if cfg.acceptMessage source = false then (EPERM, st)
  else
    match cfg.isokendpt st.schedproc endpoint with
    | .error _ => (cfg.EBADEPT, st)
    | .ok n =>
        if cfg.NR_SCHED_QUEUES ≤ newQ.toNat then (EINVAL, st)
        else
          let oldQ := (st.schedproc n).priority
          let oldMaxQ := (st.schedproc n).maxPriority
          let st := st.modify n fun p => { p with maxPriority := newQ, priority := newQ }
          let st := scheduleProcessLocal cfg st n
          if reply ≠ OK then
            (reply, st.modify n fun p => { p with priority := oldQ, maxPriority := oldMaxQ })
          else (reply, st)

/-- The loop of `do_start_scheduling`: a processor that the kernel refuses is not tried again. -/
def retrySchedule (n : Nat) (st : State) (replies : List Int) : Option Int × State :=
  let st := scheduleProcess cfg st n SCHEDULE_CHANGE_ALL
  match replies with
  | [] => (none, { st with waiting := true })
  | reply :: replies =>
      if reply = cfg.EBADCPU then
        let cpu := (st.schedproc n).cpu.toNat
        let st := { st with cpuProc := Function.update st.cpuProc cpu CPU_DEAD }
        retrySchedule n (pickCpu cfg st n) replies
      else (some reply, st)

/-- The two kinds of messages for `do_start_scheduling`. -/
inductive StartType
  | start
  | inherit
  deriving DecidableEq, Repr

/-- The fields of a `m_lsys_sched_scheduling_start` message. -/
structure StartMessage where
  type : StartType
  endpoint : Int
  parent : Int
  maxprio : UInt32
  quantum : UInt32

/-- The special case for `init`, which is the parent of itself. -/
def populateInit (st : State) (n : Nat) (m : StartMessage) : State :=
  if m.endpoint = m.parent then
    st.modify n fun p =>
      { p with
        priority := cfg.USER_Q
        timeSlice := DEFAULT_USER_TIME_SLICE
        cpu := if cfg.CONFIG_SMP then cfg.bsp_id else p.cpu }
  else st

/-- The part of `do_start_scheduling` that fills the slot: an error leaves the slot half filled. -/
def populate (st : State) (n : Nat) (m : StartMessage) : Except Int Unit × State :=
  let st := st.modify n fun p =>
    { p with endpoint := m.endpoint, parent := m.parent, maxPriority := m.maxprio }
  if cfg.NR_SCHED_QUEUES ≤ m.maxprio.toNat then (.error EINVAL, st)
  else
    let st := populateInit cfg st n m
    match m.type with
    | .start =>
        (.ok (), st.modify n fun p => { p with priority := p.maxPriority, timeSlice := m.quantum })
    | .inherit =>
        match cfg.isokendpt st.schedproc m.parent with
        | .error rv => (.error rv, st)
        | .ok parent =>
            (.ok (),
              st.modify n fun p =>
                { p with
                  priority := (st.schedproc parent).priority
                  timeSlice := (st.schedproc parent).timeSlice })

/-- `do_start_scheduling`; `ctl` is the answer to `sys_schedctl`. -/
def doStartScheduling (st : State) (source : Int) (m : StartMessage) (ctl : Int)
    (replies : List Int) : Option Int × State :=
  if cfg.acceptMessage source = false then (some EPERM, st)
  else
    match cfg.isemtyendpt st.schedproc m.endpoint with
    | .error rv => (some rv, st)
    | .ok n =>
        match populate cfg st n m with
        | (.error rv, st) => (some rv, st)
        | (.ok (), st) =>
            if ctl ≠ OK then (some ctl, st)
            else
              let st := st.modify n fun p => { p with flags := IN_USE }
              retrySchedule cfg n (pickCpu cfg st n) replies

/-- One turn of the loop of `balance_queues`. -/
def balanceSlot (st : State) (n : Nat) : State :=
  if (st.schedproc n).InUse ∧ (st.schedproc n).maxPriority < (st.schedproc n).priority then
    scheduleProcessLocal cfg st n
  else st

def balanceQueues (st : State) : State :=
  (List.range cfg.NR_PROCS).foldl (balanceSlot cfg) st

/-! ## Events -/

/-- What SCHED reacts to, with the kernel's answers. -/
inductive Event
  | noquantum (source reply : Int)
  | stop (source endpoint : Int)
  | start (source : Int) (m : StartMessage) (ctl : Int) (replies : List Int)
  | nice (source endpoint : Int) (maxprio : UInt32) (reply : Int)
  | balance

/-- The answer to an event and the state behind it. -/
def handle (st : State) : Event → Option Int × State
  | .noquantum source reply =>
      let (rv, st) := doNoquantum cfg st source reply
      (some rv, st)
  | .stop source endpoint =>
      let (rv, st) := doStopScheduling cfg st source endpoint
      (some rv, st)
  | .start source m ctl replies => doStartScheduling cfg st source m ctl replies
  | .nice source endpoint maxprio reply =>
      let (rv, st) := doNice cfg st source endpoint maxprio reply
      (some rv, st)
  | .balance => (some OK, balanceQueues cfg st)

/-- The server takes the next event when it does not wait for the kernel. -/
def step (st : State) (e : Event) : Option State :=
  if st.waiting then none else some (handle cfg st e).2

end Handlers

/-- The server at its start: no slot is in use. -/
def initial : State where
  schedproc := fun _ => ⟨0, 0, 0, 0, 0, 0, 0⟩
  cpuProc := fun _ => 0
  sent := []
  waiting := false

/-! ## The kernel -/

/-- The fields of `struct proc` that `sched_proc` uses.  `RTS_NO_QUANTUM` is kept apart from the
other run-time flags. -/
structure Proc where
  p_priority : Int
  p_quantum_size_ms : Int
  p_cpu_time_left : Nat
  p_cpu : Int
  noQuantum : Bool
  otherRts : Nat
  deriving DecidableEq, Repr

/-- Constants and functions of the kernel. -/
structure Kernel where
  EBADCPU : Int
  TASK_Q : Int
  NR_SCHED_QUEUES : Int
  CONFIG_SMP : Bool
  ncpus : Int
  cpuIsReady : Int → Bool
  ms2cpuTime : Int → Nat

/-- `sched_proc`.  The flag `RTS_NO_QUANTUM` is set on the way and clear at the end. -/
def schedProc (k : Kernel) (p : Proc) (priority quantum cpu : Int) : Int × Proc :=
  if (priority < k.TASK_Q ∧ priority ≠ -1) ∨ k.NR_SCHED_QUEUES < priority then (EINVAL, p)
  else if quantum < 1 ∧ quantum ≠ -1 then (EINVAL, p)
  else if k.CONFIG_SMP ∧ ((cpu < 0 ∧ cpu ≠ -1) ∨ (0 < cpu ∧ k.ncpus ≤ cpu)) then (EINVAL, p)
  else if k.CONFIG_SMP ∧ cpu ≠ -1 ∧ k.cpuIsReady cpu = false then (k.EBADCPU, p)
  else
    (OK,
      { p with
        p_priority := if priority ≠ -1 then priority else p.p_priority
        p_quantum_size_ms := if quantum ≠ -1 then quantum else p.p_quantum_size_ms
        p_cpu_time_left := if quantum ≠ -1 then k.ms2cpuTime quantum else p.p_cpu_time_left
        p_cpu := if k.CONFIG_SMP ∧ cpu ≠ -1 then cpu else p.p_cpu
        noQuantum := false })

end Sched
end OsLab
