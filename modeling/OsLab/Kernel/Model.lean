import OsLab.Lib.Chains
import OsLab.Lib.Loop

/-!
# Model — process slots and privileges in the kernel

`get_priv`, the send masks (`set_sendto_bit`, `unset_sendto_bit`, `fill_sendto_mask`) and the end of an
endpoint (`clear_endpoint`, `clear_ipc`, `clear_ipc_refs`) of `Lab-05/system.c`.

* A process is known by its place in the table, counted from `BEG_PROC_ADDR`, and a privilege structure
  by its id.
* Of `p_rts_flags` there are the flags these functions read or write.
* `p_caller_q` and `p_q_link` of all processes are one `Chains`.
* `Env` has what other files of the kernel provide: the slot number in an endpoint, some constants, and
  `cancel_async`, which may deliver a notification from `ASYNCM`.
* `none` is a panic, or a loop that does not end.
-/

namespace OsLab
namespace Kernel

open OsLab.Lib

/-! ## The tables -/

structure Proc where
  slotFree : Bool
  sending : Bool
  receiving : Bool
  noEndpoint : Bool
  p_endpoint : Int
  p_sendto_e : Int
  p_getfrom_e : Int
  retreg : Int
  p_priv : Nat

structure Priv where
  s_proc_nr : Option Nat
  s_trap_mask : Nat
  s_ipc_to : Nat → Bool
  sysProc : Bool
  s_asynsize : Nat
  s_notify_pending : Nat → Bool
  s_asyn_pending : Nat → Bool

structure State where
  proc : Nat → Proc
  priv : Nat → Priv
  queues : Chains Nat Nat

def State.setProc (k : State) (p : Nat) (pr : Proc) : State :=
  { k with proc := Function.update k.proc p pr }

def State.setPriv (k : State) (id : Nat) (pv : Priv) : State :=
  { k with priv := Function.update k.priv id pv }

/-- A slot that is not empty. -/
def State.live (k : State) (p : Nat) : Prop :=
  (k.proc p).slotFree = false

/-- What `cancel_async` can do to a process: deliver a notification to one that waits for it. -/
def Notified (any asyncm : Int) (pr pr' : Proc) : Prop :=
  pr' = pr ∨ pr.receiving = true ∧ pr.sending = false ∧
    (pr.p_getfrom_e = any ∨ pr.p_getfrom_e = asyncm) ∧ pr' = { pr with receiving := false }

structure Env where
  slots : Nat
  NR_SYS_PROCS : Nat
  NR_STATIC_PRIV_IDS : Nat
  slotOf : Int → Nat
  NONE : Int
  ANY : Int
  ASYNCM : Int
  asyncmId : Nat
  EDEADSRCDST : Int
  cancelAsync : Nat → Nat → State → State
  cancel_proc : ∀ src dst k p, Notified ANY ASYNCM (k.proc p) ((cancelAsync src dst k).proc p)
  cancel_queues : ∀ src dst k, (cancelAsync src dst k).queues = k.queues
  cancel_asyn : ∀ src dst k id i, ((cancelAsync src dst k).priv id).s_asyn_pending i =
    if id = (k.proc dst).p_priv ∧ i = src then false else (k.priv id).s_asyn_pending i
  cancel_notify : ∀ src dst k id i, i ≠ asyncmId →
    ((cancelAsync src dst k).priv id).s_notify_pending i = (k.priv id).s_notify_pending i

variable (env : Env)

/-! ## Privileges -/

def NULL_PRIV_ID : Int := -1
def RECEIVE : Nat := 2

def EBUSY : Int := -16
def EINVAL : Int := -22
def ENOSPC : Int := -28

/-- Assign the privilege structure `id` to `rc`. -/
def assignPriv (k : State) (rc id : Nat) : State :=
  (k.setProc rc { k.proc rc with p_priv := id }).setPriv id { k.priv id with s_proc_nr := some rc }

/-- The dynamic ids begin behind the static ones. -/
def freeDynamic (k : State) : Option Nat :=
  (List.range' env.NR_STATIC_PRIV_IDS (env.NR_SYS_PROCS - env.NR_STATIC_PRIV_IDS)).find? fun id =>
    (k.priv id).s_proc_nr.isNone

def getPriv (k : State) (rc : Nat) (privId : Int) : Except Int State :=
  if privId = NULL_PRIV_ID then
    match freeDynamic env k with
    | none => .error ENOSPC
    | some id => .ok (assignPriv k rc id)
  else if ¬ (0 ≤ privId ∧ privId < env.NR_STATIC_PRIV_IDS) then .error EINVAL
  else if (k.priv privId.toNat).s_proc_nr.isSome then .error EBUSY
  else .ok (assignPriv k rc privId.toNat)

/-- `set_sys_bit` and `unset_sys_bit` on the mask `s_ipc_to` of a privilege structure. -/
def State.setIpcTo (k : State) (i j : Nat) (b : Bool) : State :=
  k.setPriv i { k.priv i with s_ipc_to := Function.update (k.priv i).s_ipc_to j b }

/-- Traps other than RECEIVE are allowed. -/
def canReply (pv : Priv) : Bool :=
  pv.s_trap_mask &&& (0xffff ^^^ (1 <<< RECEIVE)) != 0

def setSendtoBit (k : State) (rp id : Nat) : State :=
  let i := (k.proc rp).p_priv
  if (k.priv id).s_proc_nr.isNone ∨ i = id then k.setIpcTo i id false
  else
    let k := k.setIpcTo i id true
    if canReply (k.priv id) then k.setIpcTo id i true else k

def unsetSendtoBit (k : State) (rp id : Nat) : State :=
  let i := (k.proc rp).p_priv
  (k.setIpcTo i id false).setIpcTo id i false

def fillSendtoMask (k : State) (rp : Nat) (map : Nat → Bool) : State :=
  (List.range env.NR_SYS_PROCS).foldl
    (fun k i => if map i then setSendtoBit k rp i else unsetSendtoBit k rp i) k

/-! ## Endpoints -/

/-- `P_BLOCKEDON`. -/
def blockedOn (pr : Proc) : Int :=
  if pr.sending then pr.p_sendto_e
  else if pr.receiving then pr.p_getfrom_e
  else env.NONE

/-- `okendpt`: the slot of an endpoint, which must be in use. -/
def okendpt (k : State) (e : Int) : Option Nat :=
  let p := env.slotOf e
  if p < env.slots ∧ (k.proc p).slotFree = false ∧ (k.proc p).p_endpoint = e then some p else none

/-- The queues without `rc`, if it is sending. -/
def dequeue (k : State) (rc : Nat) : Option (Chains Nat Nat) :=
  if (k.proc rc).sending then
    (okendpt env k (k.proc rc).p_sendto_e).bind fun target =>
      k.queues.unlink rc (env.slots + 1) (.head target)
  else some k.queues

def clearIpc (k : State) (rc : Nat) : Option State :=
  (dequeue env k rc).map fun queues =>
    { k.setProc rc { k.proc rc with sending := false, receiving := false } with queues := queues }

/-- `has_pending_asend(rc, ANY)`. -/
def hasPendingAsend (k : State) (rc : Nat) : Option Nat :=
  (List.range env.NR_SYS_PROCS).find? fun id => (k.priv (k.proc rc).p_priv).s_asyn_pending id

def cancelStep (rc : Nat) (k : State) : Option (State ⊕ State) :=
  match hasPendingAsend env k rc with
  | some src => some (.inl (env.cancelAsync src rc k))
  | none => some (.inr k)

/-- Unset the pending bits of `rc` in the privilege structure of `rp`. -/
def unsetPending (k : State) (rc rp : Nat) : State :=
  let id := (k.proc rc).p_priv
  let pv := k.priv (k.proc rp).p_priv
  k.setPriv (k.proc rp).p_priv
    { pv with
      s_notify_pending := Function.update pv.s_notify_pending id false
      s_asyn_pending := Function.update pv.s_asyn_pending id false }

/-- The body of the loop over all processes. -/
def clearRefs (rc : Nat) (callerRet : Int) (k : State) (rp : Nat) : Option State :=
  if (k.proc rp).slotFree then some k
  else
    let k := unsetPending k rc rp
    if blockedOn env (k.proc rp) = (k.proc rc).p_endpoint then
      clearIpc env (k.setProc rp { k.proc rp with retreg := callerRet }) rp
    else some k

def clearIpcRefs (rc : Nat) (callerRet : Int) (k : State) : Option State :=
  (loop (cancelStep env rc) (env.NR_SYS_PROCS + 1) k).bind fun k =>
    (List.range env.slots).foldlM (clearRefs env rc callerRet) k

/-- The first part of `clear_endpoint`: the process is no longer scheduled. -/
def unschedule (k : State) (rc : Nat) : State :=
  let k := k.setProc rc { k.proc rc with noEndpoint := true }
  let pv := k.priv (k.proc rc).p_priv
  if pv.sysProc then k.setPriv (k.proc rc).p_priv { pv with s_asynsize := 0 } else k

def clearEndpoint (k : State) (rc : Nat) : Option State :=
  if (k.proc rc).slotFree then none
  else (clearIpc env (unschedule k rc) rc).bind (clearIpcRefs env rc env.EDEADSRCDST)

end Kernel
end OsLab
