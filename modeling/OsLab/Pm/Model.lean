import Mathlib.Data.Finset.Card
import Mathlib.Data.Fintype.Card
import Mathlib.Data.Fintype.Pi

/-!
# Model — creating and ending processes in the MINIX process manager

`forkexit.c` of Lab-02: `do_fork`, `do_srv_fork`, `do_exit`, `exit_proc`, `exit_restart`,
`do_waitpid`, `wait_test` and the static functions behind them, over the table `mproc`.

* A slot of the table is a number below `NR_PROCS`, here the type variable `n`.  The flags are a record
  of truth values, `NO_TRACER` and `NONE` are `none`.
* Signals, the other system calls of the process manager and the answers of VFS are handled in other
  files.  `Foreign` says what these may do to the table, and an `Env` brings the decisions that
  `sig_proc` and `check_sig` make.  A process that they end goes through `exit_proc` again, in the
  middle of the call that sent the signal.
* The signals `SIGCHLD` and `SIGSTOP`, which the file sends to parents and to traced processes, end
  nobody.
* The calls to the kernel and to VM which the code answers with a panic when they fail succeed here.
  All other panics and assertions are the failure `none`.
* `history` records what is done to processes, in order.
-/

namespace OsLab
namespace Pm

/-! ## The process table -/

/-- The bits of `mp_flags` that are read or written in this file. -/
structure Flags where
  IN_USE : Bool := false
  WAITING : Bool := false
  ZOMBIE : Bool := false
  PROC_STOPPED : Bool := false
  ALARM_ON : Bool := false
  EXITING : Bool := false
  TOLD_PARENT : Bool := false
  TRACE_STOPPED : Bool := false
  NEW_PARENT : Bool := false
  VFS_CALL : Bool := false
  PRIV_PROC : Bool := false
  TRACE_ZOMBIE : Bool := false
  TRACE_EXIT : Bool := false
  DELAY_CALL : Bool := false
  TAINTED : Bool := false
  deriving DecidableEq

structure Mproc (n : Nat) where
  mp_flags : Flags
  mp_parent : Fin n
  mp_tracer : Option (Fin n)
  /-- The bit of `mp_trace_flags`. -/
  TO_TRACEFORK : Bool
  mp_sigtrace : Finset Nat
  mp_pid : Int
  mp_procgrp : Int
  mp_wpid : Int
  mp_endpoint : Nat
  mp_realuid : Nat
  mp_effuid : Nat
  mp_scheduler : Option Nat
  mp_child_utime : Nat
  mp_child_stime : Nat
  mp_exitstatus : Int
  mp_sigstatus : Nat
  deriving DecidableEq

/-- The process is in use and has not begun to exit. -/
def Mproc.alive {n : Nat} (m : Mproc n) : Bool :=
  m.mp_flags.IN_USE && !m.mp_flags.EXITING

/-- The requests to VFS.  Those made in other files are `other`. -/
inductive VfsCall
  | fork (pendpt : Nat) (cpid : Int)
  | srvFork (pendpt : Nat) (cpid : Int) (reuid : Nat)
  | exit
  | dumpcore
  | other
  deriving DecidableEq

/-- `W_EXITCODE(status, sig)` -/
structure ExitCode where
  status : Int
  sig : Nat
  deriving DecidableEq

inductive Event (n : Nat)
  /-- A slot was filled for a child. -/
  | forks (parent child : Fin n) (pid : Int)
  /-- `exit_proc` marked a process, with this exit status. -/
  | exits (c : Fin n) (pid status : Int)
  /-- The reply of `tell_parent`. -/
  | tells (parent child : Fin n) (pid : Int) (code : ExitCode)
  /-- The reply of `tell_tracer`. -/
  | traces (tracer child : Fin n) (pid : Int) (code : ExitCode)
  /-- A slot was released. -/
  | frees (c : Fin n)
  /-- Any other reply. -/
  | replies (c : Fin n) (result : Int)
  /-- The line `Minix: PID .. created`. -/
  | printsCreated (pid : Int)
  /-- The line `Minix: PID .. exited`. -/
  | printsExited (pid : Int)
  /-- `sys_kill` with `SIGKILL`. -/
  | kills (endpoint : Nat)
  deriving DecidableEq

structure Table (n : Nat) where
  mproc : Fin n → Mproc n
  procs_in_use : Int
  /-- The static `next_child` of `do_fork`. -/
  forkNext : Fin n
  /-- The static `next_child` of `do_srv_fork`. -/
  srvNext : Fin n
  /-- The request of each process that VFS has not answered yet. -/
  vfs : Fin n → Option VfsCall
  history : List (Event n)

section Updates

variable {n : Nat}

def Table.modify (s : Table n) (c : Fin n) (f : Mproc n → Mproc n) : Table n :=
  { s with mproc := Function.update s.mproc c (f (s.mproc c)) }

def Table.setFlags (s : Table n) (c : Fin n) (f : Flags → Flags) : Table n :=
  s.modify c fun m => { m with mp_flags := f m.mp_flags }

def Table.record (s : Table n) (e : Event n) : Table n :=
  { s with history := s.history ++ [e] }

end Updates

/-! ## What other files decide -/

inductive Signal
  | SIGHUP
  | SIGKILL
  | SIGSTOP
  | SIGCHLD
  deriving DecidableEq

def Signal.number : Signal → Nat
  | .SIGHUP => 1
  | .SIGKILL => 9
  | .SIGSTOP => 17
  | .SIGCHLD => 20

/-- What the rest of the process manager may do to the slot of a process that is not exiting: change
its group, its tracer and its user, stop it, wake it up from `waitpid`, or send a request for it to
VFS.  A process that is traced is traced by one that is not exiting. -/
structure ForeignSlot {n : Nat} (s : Table n) (m m' : Mproc n) (v v' : Option VfsCall) : Prop where
  in_use : m'.mp_flags.IN_USE = m.mp_flags.IN_USE
  exiting : m'.mp_flags.EXITING = m.mp_flags.EXITING
  zombie : m'.mp_flags.ZOMBIE = m.mp_flags.ZOMBIE
  trace_zombie : m'.mp_flags.TRACE_ZOMBIE = m.mp_flags.TRACE_ZOMBIE
  told_parent : m'.mp_flags.TOLD_PARENT = m.mp_flags.TOLD_PARENT
  new_parent : m'.mp_flags.NEW_PARENT = m.mp_flags.NEW_PARENT
  priv_proc : m'.mp_flags.PRIV_PROC = m.mp_flags.PRIV_PROC
  waiting : m'.mp_flags.WAITING = true → m.mp_flags.WAITING = true
  parent : m'.mp_parent = m.mp_parent
  pid : m'.mp_pid = m.mp_pid
  endpoint : m'.mp_endpoint = m.mp_endpoint
  wpid : m'.mp_wpid = m.mp_wpid
  procgrp : 0 ≤ m.mp_procgrp → 0 ≤ m'.mp_procgrp
  scheduler : m.mp_flags.PRIV_PROC = true → m'.mp_scheduler = m.mp_scheduler
  tracer : ∀ t, m'.mp_tracer = some t →
    m.mp_tracer = some t ∨ t.val ≠ 0 ∧ (s.mproc t).alive = true
  trace_exit : (m.mp_flags.TRACE_EXIT = true → m.mp_tracer ≠ none) →
    m'.mp_flags.TRACE_EXIT = true → m'.mp_tracer ≠ none
  vfs : v' = v ∧ m'.mp_flags.VFS_CALL = m.mp_flags.VFS_CALL ∨
    v = none ∧ v' = some .other ∧ m'.mp_flags.VFS_CALL = true

/-- What the rest of the process manager may do to the table.  Exiting processes and free slots are
left alone. -/
structure Foreign {n : Nat} (s s' : Table n) : Prop where
  procs_in_use : s'.procs_in_use = s.procs_in_use
  forkNext : s'.forkNext = s.forkNext
  srvNext : s'.srvNext = s.srvNext
  history : s'.history = s.history
  kept : ∀ c, (s.mproc c).alive = false → s'.mproc c = s.mproc c ∧ s'.vfs c = s.vfs c
  slot : ∀ c, (s.mproc c).alive = true →
    ForeignSlot s (s.mproc c) (s'.mproc c) (s.vfs c) (s'.vfs c)

/-- The configuration, and the decisions of the code outside this file. -/
structure Env (n : Nat) where
  INIT_PROC_NR : Fin n
  VFS_PROC_NR : Nat
  RS_PROC_NR : Nat
  SCHED_PROC_NR : Nat
  NSIG : Nat
  /-- `sys_times` -/
  times : Table n → Nat → Nat × Nat
  /-- `sig_proc` ends the process now. -/
  fatal : Table n → Fin n → Signal → Bool
  /-- What `sig_proc` does otherwise. -/
  notice : Table n → Fin n → Signal → Table n
  /-- `check_sig(-procgrp, SIGHUP)` passes the signal on to this process. -/
  selects : Table n → Int → Fin n → Bool
  init_pos : INIT_PROC_NR.val ≠ 0
  /-- A signal for a process that waits for VFS stays pending. -/
  fatal_idle : ∀ s c sig, fatal s c sig = true →
    (s.mproc c).mp_flags.VFS_CALL = false ∧ (s.mproc c).mp_endpoint ≠ VFS_PROC_NR
  notice_foreign : ∀ s c sig, (s.mproc c).alive = true → Foreign s (notice s c sig)

section Functions

variable {n : Nat} (env : Env n)

/-- `tell_vfs`: one request at a time for each process. -/
def tellVfs (s : Table n) (c : Fin n) (m : VfsCall) : Option (Table n) :=
  if (s.mproc c).mp_flags.VFS_CALL then none
  else
    some { s.setFlags c fun f => { f with VFS_CALL := true } with
      vfs := Function.update s.vfs c (some m) }

/-- `sig_proc` for a signal that ends nobody.  A signal to an exiting process or to an unused slot is
a panic. -/
def notify (s : Table n) (c : Fin n) (sig : Signal) : Option (Table n) :=
  if (s.mproc c).alive then some (env.notice s c sig) else none

/-- `sig_proc`; `exit` is the call of `exit_proc` for a process that the signal ends. -/
def sigProc (exit : Table n → Fin n → Option (Table n)) (s : Table n) (c : Fin n) (sig : Signal) :
    Option (Table n) :=
  if (s.mproc c).alive && env.fatal s c sig then
    exit (s.modify c fun m => { m with mp_sigstatus := sig.number }) c
  else notify env s c sig

/-! ## Telling parents and tracers -/

/-- Is the process waiting for this child? -/
def waitTest (rmp child : Mproc n) : Bool :=
  let pidarg := rmp.mp_wpid
  rmp.mp_flags.WAITING &&
    (pidarg == -1 || pidarg == child.mp_pid || -pidarg == child.mp_procgrp)

/-- Release the slot. -/
def cleanup (s : Table n) (c : Fin n) : Table n :=
  let s := s.modify c fun m =>
    { m with mp_pid := 0, mp_flags := {}, mp_child_utime := 0, mp_child_stime := 0 }
  { s with procs_in_use := s.procs_in_use - 1 }.record (.frees c)

def tellParent (s : Table n) (child : Fin n) : Option (Table n) :=
  let m := s.mproc child
  if m.mp_parent.val = 0 then none
  else if !m.mp_flags.ZOMBIE then none
  else if m.mp_flags.TOLD_PARENT then none
  else
    let s := s.record (.tells m.mp_parent child m.mp_pid ⟨m.mp_exitstatus, m.mp_sigstatus⟩)
    let s := s.setFlags m.mp_parent fun f => { f with WAITING := false }
    some (s.setFlags child fun f => { f with ZOMBIE := false, TOLD_PARENT := true })

def tellTracer (s : Table n) (child : Fin n) : Option (Table n) :=
  let m := s.mproc child
  match m.mp_tracer with
  | none => none
  | some tracer =>
    if tracer.val = 0 then none
    else if !m.mp_flags.TRACE_ZOMBIE then none
    else
      let s := s.record (.traces tracer child m.mp_pid ⟨m.mp_exitstatus, m.mp_sigstatus &&& 0o377⟩)
      let s := s.setFlags tracer fun f => { f with WAITING := false }
      some (s.setFlags child fun f => { f with TRACE_ZOMBIE := false, ZOMBIE := true })

/-- Inform the parent of a zombie, or send it a signal. -/
def checkParent (s : Table n) (child : Fin n) (tryCleanup : Bool) : Option (Table n) :=
  let parent := (s.mproc child).mp_parent
  -- A child of an exiting process is given to INIT and checked again.
  if (s.mproc parent).mp_flags.EXITING then some s
  else if waitTest (s.mproc parent) (s.mproc child) then
    (tellParent s child).map fun s =>
      if tryCleanup && !(s.mproc child).mp_flags.VFS_CALL then cleanup s child else s
  else notify env s parent .SIGCHLD

/-- A tracer that is not the parent is notified first. -/
def zombify (s : Table n) (c : Fin n) : Option (Table n) :=
  let m := s.mproc c
  if m.mp_flags.TRACE_ZOMBIE || m.mp_flags.ZOMBIE then none
  else
    match m.mp_tracer with
    | none => checkParent env (s.setFlags c fun f => { f with ZOMBIE := true }) c false
    | some t =>
      if t = m.mp_parent then
        checkParent env (s.setFlags c fun f => { f with ZOMBIE := true }) c false
      else
        let s := s.setFlags c fun f => { f with TRACE_ZOMBIE := true }
        if !waitTest (s.mproc t) (s.mproc c) then some s
        else (tellTracer s c).bind fun s => checkParent env s c false

/-! ## Exit -/

/-- The tracer is forgotten. -/
def untrace (m : Mproc n) : Mproc n :=
  { m with mp_tracer := none, mp_flags := { m.mp_flags with TRACE_EXIT := false } }

/-- The process that traced the child has died.  A child that is not exiting itself is killed. -/
def tracerDied (exit : Table n → Fin n → Option (Table n)) (s : Table n) (child : Fin n) :
    Option (Table n) :=
  let s := s.modify child untrace
  if !(s.mproc child).mp_flags.EXITING then sigProc env exit s child .SIGKILL
  else if (s.mproc child).mp_flags.TRACE_ZOMBIE then
    checkParent env
      (s.setFlags child fun f => { f with TRACE_ZOMBIE := false, ZOMBIE := true }) child true
  else some s

/-- INIT is the new parent.  A request to VFS is marked, so that FORK does not reply to the wrong
parent. -/
def orphan (m : Mproc n) : Mproc n :=
  { m with
    mp_parent := env.INIT_PROC_NR
    mp_flags := { m.mp_flags with NEW_PARENT := m.mp_flags.NEW_PARENT || m.mp_flags.VFS_CALL } }

/-- The child `c` of an exiting process is disinherited. -/
def adopt (s : Table n) (c : Fin n) : Option (Table n) :=
  let s := s.modify c (orphan env)
  if (s.mproc c).mp_flags.ZOMBIE then checkParent env s c true else some s

/-- One turn of the loop that ends `exit_proc`: what the death of `dead` means for `c`. -/
def disinherit (exit : Table n → Fin n → Option (Table n)) (dead : Fin n) (s : Table n) (c : Fin n) :
    Option (Table n) :=
  if !(s.mproc c).mp_flags.IN_USE then some s
  else
    (if (s.mproc c).mp_tracer = some dead then tracerDied env exit s c else some s).bind fun s =>
      if (s.mproc c).mp_parent = dead then adopt env s c else some s

/-- One turn of the loop of `check_sig(-procgrp, SIGHUP)`. -/
def hangup (exit : Table n → Fin n → Option (Table n)) (procgrp : Int) (s : Table n) (c : Fin n) :
    Option (Table n) :=
  if (s.mproc c).alive && env.selects s procgrp c then sigProc env exit s c .SIGHUP else some s

/-- `exit_proc` up to the stop of the process: the alarm is cancelled and the times are charged to the
parent. -/
def stopProc (s : Table n) (c : Fin n) : Table n :=
  let s := s.setFlags c fun f => { f with ALARM_ON := false }
  let m := s.mproc c
  let t := env.times s m.mp_endpoint
  let s := s.modify m.mp_parent fun p =>
    { p with
      mp_child_utime := p.mp_child_utime + (t.1 + m.mp_child_utime)
      mp_child_stime := p.mp_child_stime + (t.2 + m.mp_child_stime) }
  s.setFlags c fun f => { f with PROC_STOPPED := true }

/-- The flags that an exiting process keeps, and the mark. -/
def exitFlags (f : Flags) : Flags :=
  { IN_USE := f.IN_USE, VFS_CALL := f.VFS_CALL, PRIV_PROC := f.PRIV_PROC, TRACE_EXIT := f.TRACE_EXIT,
    PROC_STOPPED := f.PROC_STOPPED, EXITING := true }

/-- The process is marked as exiting; `mp_exitstatus` is a `char`. -/
def markExit (s : Table n) (c : Fin n) (exitStatus : Int) : Table n :=
  (s.modify c fun m =>
    { m with mp_flags := exitFlags m.mp_flags, mp_exitstatus := exitStatus.bmod 256 }).record
      (.exits c (s.mproc c).mp_pid exitStatus)

/-- `exit_proc(c, exit_status, dump_core)` while `who` is the process whose request is handled.  The
fuel bounds the depth of cascading exits. -/
def exitProc : Nat → Table n → Fin n → Fin n → Int → Bool → Option (Table n)
  | 0, _, _, _, _, _ => none
  | fuel + 1, s, who, c, exitStatus, dumpCore =>
    let m := s.mproc c
    let dumpCore := dumpCore && m.mp_realuid == m.mp_effuid && !m.mp_flags.PRIV_PROC
    let procgrp := if m.mp_pid = (s.mproc who).mp_procgrp then (s.mproc who).mp_procgrp else 0
    let s := stopProc env s c
    if m.mp_endpoint = env.INIT_PROC_NR.val then some s
    else if m.mp_endpoint = env.VFS_PROC_NR then none
    else
      (tellVfs s c (if dumpCore then .dumpcore else .exit)).bind fun s =>
      let s := markExit s c exitStatus
      (if dumpCore then some s else zombify env s c).bind fun s =>
      let exit := fun s d => exitProc fuel s who d 0 false
      ((List.finRange n).foldlM (disinherit env exit c) s).bind fun s =>
      if procgrp ≠ 0 then (List.finRange n).reverse.foldlM (hangup env exit procgrp) s
      else some s

/-- VFS has replied to the request of an exiting process. -/
def exitRestart (s : Table n) (c : Fin n) (dumpCore : Bool) : Option (Table n) :=
  let s := s.modify c fun m => { m with mp_scheduler := none }
  (if dumpCore then zombify env s c else some s).bind fun s =>
  (if (s.mproc c).mp_flags.TRACE_EXIT then
      (s.mproc c).mp_tracer.map fun t => s.record (.replies t 0)
    else some s).bind fun s =>
  if (s.mproc c).mp_flags.TOLD_PARENT then some (cleanup s c) else some s

/-! ## System calls -/

/-- What a call returns to the main loop. -/
inductive Result
  | suspend
  | result (r : Int)
  /-- `W_STOPCODE(sig)` for the process `pid` -/
  | stopped (pid : Int) (sig : Nat)
  deriving DecidableEq

def EPERM : Int := -1
def ECHILD : Int := -10
def EAGAIN : Int := -11

/-- Slots reserved for the superuser. -/
def LAST_FEW : Int := 2

def nextSlot (c : Fin n) : Fin n :=
  ⟨(c.val + 1) % n, Nat.mod_lt _ c.pos⟩

/-- The loop that looks for a free slot; `none` is the panic after `NR_PROCS` turns. -/
def findChild (s : Table n) : Nat → Fin n → Option (Fin n)
  | 0, _ => none
  | turns + 1, next =>
    if (s.mproc (nextSlot next)).mp_flags.IN_USE then findChild s turns (nextSlot next)
    else some (nextSlot next)

/-- The test for a full table. -/
def tableFull (s : Table n) (rmp : Mproc n) : Bool :=
  s.procs_in_use == n || (s.procs_in_use ≥ (n : Int) - LAST_FEW && rmp.mp_effuid != 0)

/-- The slot of a child: a copy of the parent that inherits only some flags. -/
def copySlot (rmp : Mproc n) (who : Fin n) (childEp : Nat) (newPid : Int) (flags : Flags) : Mproc n :=
  { rmp with
    mp_parent := who
    mp_tracer := if rmp.TO_TRACEFORK then rmp.mp_tracer else none
    TO_TRACEFORK := rmp.TO_TRACEFORK
    mp_sigtrace := if rmp.TO_TRACEFORK then rmp.mp_sigtrace else ∅
    mp_flags := flags
    mp_child_utime := 0
    mp_child_stime := 0
    mp_exitstatus := 0
    mp_sigstatus := 0
    mp_endpoint := childEp
    mp_pid := newPid }

/-- The child of `do_fork`.  PM takes over the scheduling of a child of a system process. -/
def forkSlot (rmp : Mproc n) (who : Fin n) (childEp : Nat) (newPid : Int) : Mproc n :=
  { copySlot rmp who childEp newPid
      { IN_USE := rmp.mp_flags.IN_USE, DELAY_CALL := rmp.mp_flags.DELAY_CALL
        TAINTED := rmp.mp_flags.TAINTED } with
    mp_scheduler := if rmp.mp_flags.PRIV_PROC then some env.SCHED_PROC_NR else rmp.mp_scheduler }

/-- The child of `do_srv_fork`. -/
def srvForkSlot (rmp : Mproc n) (who : Fin n) (childEp : Nat) (newPid : Int) (uid : Nat) : Mproc n :=
  { copySlot rmp who childEp newPid
      { IN_USE := rmp.mp_flags.IN_USE, PRIV_PROC := rmp.mp_flags.PRIV_PROC
        DELAY_CALL := rmp.mp_flags.DELAY_CALL } with
    mp_realuid := uid
    mp_effuid := uid }

/-- The child is put into the table and VFS and the tracer are told. -/
def enter (s : Table n) (who child : Fin n) (rmc : Mproc n) (call : VfsCall) : Option (Table n) :=
  let s := { s with
    procs_in_use := s.procs_in_use + 1
    mproc := Function.update s.mproc child rmc }
  (tellVfs (s.record (.forks who child rmc.mp_pid)) child call).bind fun s =>
    if (s.mproc child).mp_tracer ≠ none then notify env s child .SIGSTOP else some s

/-- `vmFork` is the answer of `vm_fork`, an error or the endpoint of the child, and `newPid` that of
`get_free_pid`. -/
def doFork (s : Table n) (who : Fin n) (vmFork : Except Int Nat) (newPid : Int) :
    Option (Result × Table n) :=
  let rmp := s.mproc who
  if tableFull s rmp then some (.result EAGAIN, s)
  else
    (findChild s n s.forkNext).bind fun child =>
    let s := { s with forkNext := child }
    match vmFork with
    | .error r => some (.result r, s)
    | .ok childEp =>
      -- The assertion that a system process has no scheduler.
      if rmp.mp_flags.PRIV_PROC ∧ rmp.mp_scheduler ≠ none then none
      else
        (enter env (s.record (.printsCreated newPid)) who child (forkSlot env rmp who childEp newPid)
          (.fork rmp.mp_endpoint newPid)).map fun s => (.suspend, s)

def doSrvFork (s : Table n) (who : Fin n) (vmFork : Except Int Nat) (newPid : Int) (uid : Nat) :
    Option (Result × Table n) :=
  let rmp := s.mproc who
  if rmp.mp_endpoint ≠ env.RS_PROC_NR then some (.result EPERM, s)
  else if tableFull s rmp then some (.result EAGAIN, s)
  else
    (findChild s n s.srvNext).bind fun child =>
    let s := { s with srvNext := child }
    match vmFork with
    | .error r => some (.result r, s)
    | .ok childEp =>
      (enter env s who child (srvForkSlot rmp who childEp newPid uid)
        (.srvFork rmp.mp_endpoint newPid uid)).map fun s =>
        (.result newPid, s.record (.replies child 0))

def doExit (s : Table n) (who : Fin n) (status : Int) : Option (Result × Table n) :=
  if (s.mproc who).mp_flags.PRIV_PROC then
    some (.suspend, s.record (.kills (s.mproc who).mp_endpoint))
  else
    (exitProc env (n + 1) s who who status false).map fun s =>
      (.suspend, s.record (.printsExited (s.mproc who).mp_pid))

/-- The pid test of `do_waitpid`. -/
def qualifies (pidarg : Int) (rp : Mproc n) : Bool :=
  !(pidarg > 0 && pidarg != rp.mp_pid) && !(pidarg < -1 && -pidarg != rp.mp_procgrp)

/-- The tests before the pid test: the slot is that of a child or of a traced process. -/
def collectable (who : Fin n) (rp : Mproc n) : Bool :=
  rp.mp_flags.IN_USE && !rp.mp_flags.TOLD_PARENT &&
    (rp.mp_parent == who || rp.mp_tracer == some who && !rp.mp_flags.ZOMBIE)

/-- The first signal that stopped a traced process. -/
def stopSignal (rp : Mproc n) : Option Nat :=
  (List.range' 1 (env.NSIG - 1)).find? fun i => i ∈ rp.mp_sigtrace

/-- The loop over the table and what follows it.  `children` counts the acceptable children. -/
def waitScan (who : Fin n) (pidarg : Int) (nohang : Bool) :
    List (Fin n) → Nat → Table n → Option (Result × Table n)
  | [], children, s =>
    if children > 0 then
      if nohang then some (.result 0, s)
      else
        some (.suspend, s.modify who fun m =>
          { m with mp_flags := { m.mp_flags with WAITING := true }, mp_wpid := pidarg })
    else some (.result ECHILD, s)
  | c :: cs, children, s =>
    let rp := s.mproc c
    if !(collectable who rp && qualifies pidarg rp) then waitScan who pidarg nohang cs children s
    else if rp.mp_tracer = some who ∧ rp.mp_flags.TRACE_ZOMBIE then
      (tellTracer s c).bind fun s => (checkParent env s c true).map fun s => (.suspend, s)
    else
      let stop :=
        if rp.mp_tracer = some who ∧ rp.mp_flags.TRACE_STOPPED then stopSignal env rp else none
      match stop with
      | some i =>
        some (.stopped rp.mp_pid i, s.modify c fun m => { m with mp_sigtrace := m.mp_sigtrace.erase i })
      | none =>
        if rp.mp_parent = who ∧ rp.mp_flags.ZOMBIE then
          (tellParent s c).map fun s =>
            (.suspend, if !(s.mproc c).mp_flags.VFS_CALL then cleanup s c else s)
        else waitScan who pidarg nohang cs (children + 1) s

def doWaitpid (s : Table n) (who : Fin n) (pid : Int) (nohang : Bool) : Option (Result × Table n) :=
  let pidarg := if pid = 0 then -(s.mproc who).mp_procgrp else pid
  waitScan env who pidarg nohang (List.finRange n) 0 s

/-- `WCOREFLAG` of the wait status. -/
def WCOREFLAG : Nat := 0o200

/-- The main loop hands the reply of VFS to the second half of the call. -/
def vfsReply (s : Table n) (c : Fin n) (dumped : Bool) : Option (Table n) :=
  (s.vfs c).bind fun call =>
  let s := { s.setFlags c fun f => { f with VFS_CALL := false, NEW_PARENT := false } with
    vfs := Function.update s.vfs c none }
  match call with
  | .exit => exitRestart env s c false
  | .dumpcore =>
    let s := s.modify c fun m =>
      { m with mp_sigstatus := if dumped then m.mp_sigstatus ||| WCOREFLAG else m.mp_sigstatus }
    exitRestart env s c true
  | _ => some s

/-! ## Runs -/

inductive Call (n : Nat)
  | fork (who : Fin n) (vmFork : Except Int Nat) (newPid : Int)
  | srvFork (who : Fin n) (vmFork : Except Int Nat) (newPid : Int) (uid : Nat)
  | exit (who : Fin n) (status : Int)
  /-- Another file ends a process, by a signal or for its tracer. -/
  | exitProc (who c : Fin n) (status : Int) (dumpCore : Bool)
  | waitpid (who : Fin n) (pid : Int) (nohang : Bool)
  | vfsReply (c : Fin n) (dumped : Bool)
  /-- Another file changes the table. -/
  | other (s' : Table n)

def step (s : Table n) : Call n → Option (Table n)
  | .fork who vmFork newPid => (doFork env s who vmFork newPid).map Prod.snd
  | .srvFork who vmFork newPid uid => (doSrvFork env s who vmFork newPid uid).map Prod.snd
  | .exit who status => (doExit env s who status).map Prod.snd
  | .exitProc who c status dumpCore => exitProc env (n + 1) s who c status dumpCore
  | .waitpid who pid nohang => (doWaitpid env s who pid nohang).map Prod.snd
  | .vfsReply c dumped => vfsReply env s c dumped
  | .other s' => some s'

/-- A process that can make a call: the main loop discards the requests of exiting processes, and a
process that waits for a reply sends no other request. -/
def Caller (s : Table n) (who : Fin n) : Prop :=
  who.val ≠ 0 ∧ (s.mproc who).alive = true ∧ (s.mproc who).mp_flags.WAITING = false ∧
    s.vfs who = none

/-- `get_free_pid` returns a positive number, and `vm_fork` the endpoint of a new process. -/
def NewProcess (vmFork : Except Int Nat) (newPid : Int) : Prop :=
  0 < newPid ∧ ∀ e, vmFork = .ok e → e ≠ env.INIT_PROC_NR.val ∧ e ≠ env.VFS_PROC_NR

/-- What callers, kernel and VFS promise. -/
def Allowed (s : Table n) : Call n → Prop
  | .fork who vmFork newPid => Caller s who ∧ NewProcess env vmFork newPid
  | .srvFork who vmFork newPid _ => Caller s who ∧ NewProcess env vmFork newPid
  | .exit who _ => Caller s who
  | .exitProc _ c _ _ =>
    (s.mproc c).alive = true ∧ s.vfs c = none ∧ (s.mproc c).mp_endpoint ≠ env.VFS_PROC_NR
  | .waitpid who _ _ => Caller s who
  | .vfsReply c _ => s.vfs c ≠ none
  | .other s' => Foreign s s'

end Functions

end Pm
end OsLab
