import OsLab.Lib.Runs
import OsLab.Vfs.Model

/-!
# Pipe — reads and writes of many processes on many pipes

`rw_pipe` of `vfs/read.c` moves what fits and suspends the caller; the call goes on later, from where
it stopped.  A run is any order of new calls and resumed ones.

* `pipe_check` (what can be moved now) and the answer of the pipe file server to `req_readwrite` are
  given for every attempt.  The bytes in the pipe are the server's and not in the model.
* A signal that interrupts a suspended call is handled by another file and is left out.
* The history is not in the source: it says what happened.
-/

namespace OsLab
namespace Vfs
namespace Pipe

open OsLab.Lib
open OsLab.Mfs (OK EINVAL RwFlag)

def EPIPE : Int := -32

/-! ## The state -/

/-- A call of `read` or `write` on a pipe, or what is left of it. -/
structure Request where
  filp_vno : Nat
  rwFlag : RwFlag
  buf : Nat
  size : Nat
  /-- `O_NONBLOCK` and `O_NOSIGPIPE` of `filp_flags`. -/
  nonblock : Bool
  nosigpipe : Bool
  deriving DecidableEq, Repr

/-- The request without the `k` bytes that were moved. -/
def Request.rest (q : Request) (k : Nat) : Request :=
  { q with buf := q.buf + k, size := q.size - k }

structure Fproc where
  fpCumIoPartial : Nat
  /-- What `pipe_suspend` has kept. -/
  suspended : Option Request
  deriving DecidableEq, Repr

structure Vnode where
  v_size : Nat
  /-- Whether `v_mapfs_e` is set. -/
  mapped : Bool
  deriving DecidableEq, Repr

inductive Event
  | starts (p : Nat) (q : Request)
  /-- `req_readwrite` for `size` bytes at `buf`, and the count and the new position of the answer. -/
  | moves (p : Nat) (rwFlag : RwFlag) (vno buf size count newPos : Nat)
  | returns (p : Nat) (r : Int)
  | refuses (p : Nat)
  | sigpipe (p : Nat)
  deriving DecidableEq, Repr

structure State where
  vnode : Nat → Vnode
  fproc : Nat → Fproc
  history : List Event

def State.log (st : State) (e : Event) : State :=
  { st with history := st.history ++ [e] }

def State.setFproc (st : State) (p : Nat) (rfp : Fproc) : State :=
  { st with fproc := Function.update st.fproc p rfp }

def State.setVnode (st : State) (vno : Nat) (vp : Vnode) : State :=
  { st with vnode := Function.update st.vnode vno vp }

/-- What the code outside brings to one attempt. -/
structure Answer where
  pipeCheck : Int
  /-- `req_readwrite`: the result, `new_pos` and `cum_io_incr`. -/
  reqReadwrite : Int
  newPos : Nat
  cumIoIncr : Nat
  deriving DecidableEq, Repr

/-! ## The functions -/

def pipeSuspend (st : State) (p : Nat) (q : Request) : State :=
  st.setFproc p { st.fproc p with suspended := some q }

/-- `size` when the request goes to the pipe file server. -/
def transferSize (q : Request) (vp : Vnode) (check : Int) : Nat :=
  if q.rwFlag = .reading ∧ vp.v_size < check.toNat then vp.v_size else check.toNat

/-- `rw_pipe` -/
def rwPipe (a : Answer) (st : State) (p : Nat) (q : Request) : Option (Int × State) :=
  let cumIo := (st.fproc p).fpCumIoPartial
  if a.pipeCheck ≤ 0 then
    if a.pipeCheck = SUSPEND then some (SUSPEND, pipeSuspend st p q) else some (a.pipeCheck, st)
  else if (st.vnode q.filp_vno).mapped = false then none
  else if a.reqReadwrite ≠ OK then some (a.reqReadwrite, st)
  else
    let vp := st.vnode q.filp_vno
    let incr := a.cumIoIncr
    let st' := (st.setVnode q.filp_vno { vp with v_size := a.newPos }).log
      (.moves p q.rwFlag q.filp_vno q.buf (transferSize q vp a.pipeCheck) incr a.newPos)
    let partialPipe : Prop := a.pipeCheck.toNat < q.size
    if partialPipe ∧ q.nonblock = false then
      some (SUSPEND,
        pipeSuspend (st'.setFproc p { st'.fproc p with fpCumIoPartial := cumIo + incr }) p (q.rest incr))
    else
      some (((cumIo + incr : Nat) : Int),
        st'.setFproc p { st'.fproc p with fpCumIoPartial := 0 })

/-- The reply to the process, unless the call is suspended. -/
def reply (p : Nat) (r : Int) (st : State) : State :=
  if r = SUSPEND then st else st.log (.returns p r)

/-- `read_write`, where the file is a pipe. -/
def readWrite (a : Answer) (st : State) (p : Nat) (q : Request) : Option State :=
  if SSIZE_MAX < q.size then some (st.log (.refuses p))
  else if (st.fproc p).fpCumIoPartial ≠ 0 then none
  else if q.rwFlag = .peeking then some (st.log (.refuses p))
  else
    (rwPipe a (st.log (.starts p q)) p q).map fun (r, st') =>
      if r = EPIPE ∧ q.rwFlag = .writing ∧ q.nosigpipe = false then reply p r (st'.log (.sigpipe p))
      else reply p r st'

/-- A suspended call goes on. -/
def resume (a : Answer) (st : State) (p : Nat) : Option State :=
  match (st.fproc p).suspended with
  | none => some st
  | some q =>
    (rwPipe a (st.setFproc p { st.fproc p with suspended := none }) p q).map fun (r, st') =>
      reply p r st'

inductive Step
  | call (p : Nat) (q : Request) (a : Answer)
  | resume (p : Nat) (a : Answer)
  deriving DecidableEq, Repr

def step (st : State) : Step → Option State
  | .call p q a => readWrite a st p q
  | .resume p a => resume a st p

/-- `pipe_check` allows no more than is asked for.  `req_readwrite` returns `OK` or an error, and with
`OK` it has moved no more than was asked for, and when writing all of it. -/
structure Answer.Sound (a : Answer) (q : Request) (vp : Vnode) : Prop where
  check : a.pipeCheck ≤ q.size
  result : a.reqReadwrite ≤ 0 ∧ a.reqReadwrite ≠ SUSPEND
  count : 0 < a.pipeCheck → a.reqReadwrite = OK → a.cumIoIncr ≤ transferSize q vp a.pipeCheck
  written : 0 < a.pipeCheck → a.reqReadwrite = OK → q.rwFlag = .writing →
    a.cumIoIncr = transferSize q vp a.pipeCheck

/-- A process that is suspended makes no other call. -/
def Allowed (st : State) : Step → Prop
  | .call p q a => (st.fproc p).suspended = none ∧ a.Sound q (st.vnode q.filp_vno)
  | .resume p a => ∀ q, (st.fproc p).suspended = some q → a.Sound q (st.vnode q.filp_vno)

/-! ## What the history says -/

/-- A call as its process sees it. -/
inductive Progress
  | idle
  /-- The call `q`, of which `moved` bytes have been moved. -/
  | busy (q : Request) (moved : Nat)
  /-- The last call returned an error after it had moved some bytes. -/
  | torn (moved : Nat)
  deriving DecidableEq, Repr

def Event.subject : Event → Option Nat
  | .starts p _ => some p
  | .moves p _ _ _ _ _ _ => some p
  | .returns p _ => some p
  | .refuses _ => none
  | .sigpipe _ => none

/-- One more event of the call.  Bytes are moved from or to the place in the buffer behind those that
were moved before; a count that is returned is the number of bytes moved, and for a write that may
block it is the size of the request. -/
def Progress.next : Progress → Event → Option Progress
  | .idle, .starts _ q => some (.busy q 0)
  | .busy q moved, .moves _ rwFlag vno buf size count _ =>
    if rwFlag = q.rwFlag ∧ vno = q.filp_vno ∧ buf = q.buf + moved ∧ count ≤ size ∧
        moved + size ≤ q.size then
      some (.busy q (moved + count))
    else none
  | .busy q moved, .returns _ r =>
    if 0 < r then
      if r = moved ∧ (q.rwFlag = .writing → q.nonblock = false → moved = q.size) then some .idle else none
    else if moved = 0 then some .idle
    else some (.torn moved)
  | _, _ => none

def progressOf (p : Nat) (history : List Event) : Option Progress :=
  (history.filter fun e => e.subject = some p).foldlM Progress.next .idle

/-- The progress that a slot of `fproc` shows. -/
def Agrees (rfp : Fproc) : Progress → Prop
  | .idle => rfp = ⟨0, none⟩
  | .busy q moved => q.rwFlag ≠ .peeking ∧ moved ≤ q.size ∧ rfp = ⟨moved, some (q.rest moved)⟩
  | .torn moved => 0 < moved ∧ rfp = ⟨moved, none⟩

/-- The size of a pipe after an event. -/
def Event.sizeAfter (v : Nat) (size : Nat) : Event → Nat
  | .moves _ _ vno _ _ _ newPos => if vno = v then newPos else size
  | _ => size

/-- The size that the server has reported last. -/
def lastSize (size₀ : Nat → Nat) (v : Nat) (history : List Event) : Nat :=
  history.foldl (Event.sizeAfter v) (size₀ v)

/-- A read asks for no more than there is. -/
def Event.Capped (sizeOf : Nat → Nat) : Event → Prop
  | .moves _ rwFlag vno _ size _ _ => rwFlag = .reading → size ≤ sizeOf vno
  | _ => True

/-! ## The invariant -/

section Invariant

variable {st st' : State} {p : Nat}

/-- `v_size` is what the server has reported last, and no read has asked for more. -/
structure Sizes (size₀ : Nat → Nat) (st : State) : Prop where
  last : ∀ v, (st.vnode v).v_size = lastSize size₀ v st.history
  capped : ∀ before e after, st.history = before ++ e :: after →
    e.Capped fun v => lastSize size₀ v before
  mapped : ∀ v, (st.vnode v).mapped = true

def AgreesAt (st : State) (p : Nat) : Prop :=
  ∃ pr, progressOf p st.history = some pr ∧ Agrees (st.fproc p) pr

structure Inv (size₀ : Nat → Nat) (st : State) : Prop where
  sizes : Sizes size₀ st
  agrees : ∀ p, AgreesAt st p

theorem progressOf_concat (e : Event) (history : List Event) :
    progressOf p (history ++ [e]) =
      if e.subject = some p then (progressOf p history).bind fun pr => pr.next e
      else progressOf p history := by
  unfold progressOf
  rw [foldlM_filter_concat]
  simp only [decide_eq_true_eq]

theorem progressOf_log_self {e : Event} {pr : Progress} (hsubject : e.subject = some p)
    (h : progressOf p st.history = some pr) :
    progressOf p (st.log e).history = pr.next e := by
  change progressOf p (st.history ++ [e]) = pr.next e
  rw [progressOf_concat, if_pos hsubject, h]
  rfl

theorem progressOf_log_other {e : Event} (hsubject : e.subject ≠ some p) :
    progressOf p (st.log e).history = progressOf p st.history := by
  change progressOf p (st.history ++ [e]) = progressOf p st.history
  rw [progressOf_concat, if_neg hsubject]

/-- The other processes do not notice. -/
structure Frame (p : Nat) (st st' : State) : Prop where
  fproc : ∀ x, x ≠ p → st'.fproc x = st.fproc x
  progress : ∀ x, x ≠ p → progressOf x st'.history = progressOf x st.history

theorem Frame.refl : Frame p st st :=
  ⟨fun _ _ => rfl, fun _ _ => rfl⟩

theorem Frame.trans {st'' : State} (h : Frame p st st') (h' : Frame p st' st'') :
    Frame p st st'' :=
  ⟨fun x hx => (h'.fproc x hx).trans (h.fproc x hx),
    fun x hx => (h'.progress x hx).trans (h.progress x hx)⟩

theorem Frame.agreesAt (h : Frame p st st') {x : Nat} (hx : x ≠ p) (hagrees : AgreesAt st x) :
    AgreesAt st' x := by
  rcases hagrees with ⟨pr, hpr, hfproc⟩
  refine ⟨pr, ?_, ?_⟩
  · rw [h.progress x hx]
    exact hpr
  · rw [h.fproc x hx]
    exact hfproc

theorem frame_log {e : Event} (hsubject : ∀ x, x ≠ p → e.subject ≠ some x) : Frame p st (st.log e) :=
  ⟨fun _ _ => rfl, fun x hx => progressOf_log_other (hsubject x hx)⟩

theorem frame_setFproc (rfp : Fproc) : Frame p st (st.setFproc p rfp) :=
  ⟨fun _ hx => Function.update_of_ne hx _ _, fun _ _ => rfl⟩

theorem frame_setVnode (v : Nat) (vp : Vnode) : Frame p st (st.setVnode v vp) :=
  ⟨fun _ _ => rfl, fun _ _ => rfl⟩

/-! ## One attempt -/

variable {size₀ : Nat → Nat}

/-- Events that are no request to the server. -/
def Event.Silent : Event → Prop
  | .moves .. => False
  | _ => True

theorem lastSize_concat (v : Nat) (history : List Event) (e : Event) :
    lastSize size₀ v (history ++ [e]) = e.sizeAfter v (lastSize size₀ v history) := by
  unfold lastSize
  rw [List.foldl_append]
  rfl

/-- The last event, or one before it. -/
theorem Sizes.capped_concat {e : Event} (h : Sizes size₀ st)
    (he : e.Capped fun v => lastSize size₀ v st.history) :
    ∀ before e' after, st.history ++ [e] = before ++ e' :: after →
      e'.Capped fun v => lastSize size₀ v before := by
  intro before e' after heq
  rcases List.eq_nil_or_concat after with rfl | ⟨after, last, rfl⟩
  · rcases List.append_inj' heq rfl with ⟨rfl, hlast⟩
    cases hlast
    exact he
  · rw [List.concat_eq_append, ← List.cons_append, ← List.append_assoc] at heq
    exact h.capped before e' after (List.append_inj' heq rfl).1

theorem Sizes.log {e : Event} (h : Sizes size₀ st) (hsilent : e.Silent) : Sizes size₀ (st.log e) := by
  have hboth : (∀ v size, e.sizeAfter v size = size) ∧ ∀ sizeOf, e.Capped sizeOf := by
    cases e with
    | moves p rwFlag vno buf size count newPos => exact hsilent.elim
    | starts p q => exact ⟨fun _ _ => rfl, fun _ => trivial⟩
    | returns p r => exact ⟨fun _ _ => rfl, fun _ => trivial⟩
    | refuses p => exact ⟨fun _ _ => rfl, fun _ => trivial⟩
    | sigpipe p => exact ⟨fun _ _ => rfl, fun _ => trivial⟩
  refine ⟨?_, h.capped_concat (hboth.2 _), h.mapped⟩
  intro v
  change (st.vnode v).v_size = lastSize size₀ v (st.history ++ [e])
  rw [lastSize_concat, hboth.1]
  exact h.last v

theorem Sizes.setFproc (h : Sizes size₀ st) (rfp : Fproc) : Sizes size₀ (st.setFproc p rfp) :=
  ⟨h.last, h.capped, h.mapped⟩

/-- One request to the pipe file server, and its answer. -/
theorem Sizes.move (h : Sizes size₀ st) (p : Nat) (rwFlag : RwFlag) (vno buf size count newPos : Nat)
    (hsize : rwFlag = .reading → size ≤ (st.vnode vno).v_size) :
    Sizes size₀ ((st.setVnode vno { st.vnode vno with v_size := newPos }).log
      (.moves p rwFlag vno buf size count newPos)) := by
  refine ⟨?_, h.capped_concat ?_, ?_⟩
  · intro v
    change (Function.update st.vnode vno _ v).v_size = lastSize size₀ v (st.history ++ [_])
    rw [lastSize_concat]
    by_cases hv : vno = v
    · subst hv
      rw [Function.update_self]
      exact (if_pos rfl).symm
    · rw [Function.update_of_ne (Ne.symm hv)]
      exact (h.last v).trans (if_neg hv).symm
  · intro hreading
    dsimp only
    rw [← h.last vno]
    exact hsize hreading
  · intro v
    change (Function.update st.vnode vno _ v).mapped = true
    by_cases hv : v = vno
    · subst hv
      rw [Function.update_self]
      exact h.mapped v
    · rw [Function.update_of_ne hv]
      exact h.mapped v

/-- A process in a call: what the history has of it, and what is left to do. -/
structure InCall (st : State) (p : Nat) (q : Request) (moved : Nat) : Prop where
  progress : progressOf p st.history = some (.busy q moved)
  fproc : st.fproc p = ⟨moved, none⟩
  bound : moved ≤ q.size
  flag : q.rwFlag ≠ .peeking

theorem rest_rest (q : Request) (j k : Nat) : (q.rest j).rest k = q.rest (j + k) := by
  simp [Request.rest, Nat.add_assoc, Nat.sub_sub]

/-- An attempt moves the next part of the request. -/
theorem InCall.move {q : Request} {moved size count : Nat} (hcall : InCall st p q moved)
    (newPos : Nat) (vp : Vnode) (hcount : count ≤ size) (hsize : size ≤ q.size - moved) :
    InCall (((st.setVnode q.filp_vno vp).log
        (.moves p q.rwFlag q.filp_vno (q.buf + moved) size count newPos)).setFproc p ⟨moved + count, none⟩)
      p q (moved + count) := by
  have hbound := hcall.bound
  refine ⟨?_, Function.update_self _ _ _, by omega, hcall.flag⟩
  refine (progressOf_log_self rfl hcall.progress).trans ?_
  exact if_pos ⟨rfl, rfl, rfl, hcount, by omega⟩

theorem frame_move (rwFlag : RwFlag) (vno buf size count newPos : Nat) (vp : Vnode) :
    Frame p st ((st.setVnode vno vp).log (.moves p rwFlag vno buf size count newPos)) := by
  refine (frame_setVnode _ _).trans (frame_log ?_)
  intro x hx heq
  exact hx (Option.some.inj heq).symm

/-- A read asks for what there is at most, and no request for more than what is left. -/
theorem transferSize_le {q : Request} (vp : Vnode) {check : Int} (hcheck : check ≤ q.size) :
    transferSize q vp check ≤ q.size ∧ (q.rwFlag = .reading → transferSize q vp check ≤ vp.v_size) := by
  unfold transferSize
  split
  · exact ⟨by omega, fun _ => Nat.le_refl _⟩
  · rename_i hmore
    refine ⟨by omega, fun hreading => ?_⟩
    have hle : ¬ vp.v_size < check.toNat := fun hlt => hmore ⟨hreading, hlt⟩
    omega

/-- The call is suspended, or its result agrees with what was moved. -/
def Answered (st : State) (p : Nat) (r : Int) : Prop :=
  (r = SUSPEND ∧ AgreesAt st p) ∨
    r ≠ SUSPEND ∧ ∃ q moved pr, progressOf p st.history = some (.busy q moved) ∧
      (Progress.busy q moved).next (.returns p r) = some pr ∧ Agrees (st.fproc p) pr

theorem next_error (q : Request) (moved : Nat) {r : Int} (hr : r ≤ 0) :
    (Progress.busy q moved).next (.returns p r) =
      if moved = 0 then some .idle else some (.torn moved) :=
  if_neg (by omega)

/-- A call that returns no count. -/
theorem InCall.answered_error {q : Request} {moved : Nat} (h : InCall st p q moved) {r : Int}
    (hr : r ≤ 0) (hne : r ≠ SUSPEND) : Answered st p r := by
  by_cases hmoved : moved = 0
  · refine Or.inr ⟨hne, q, moved, .idle, h.progress, ?_, ?_⟩
    · rw [next_error q moved hr, if_pos hmoved]
    · rw [h.fproc, hmoved]
      exact rfl
  · refine Or.inr ⟨hne, q, moved, .torn moved, h.progress, ?_, ?_⟩
    · rw [next_error q moved hr, if_neg hmoved]
    · exact ⟨Nat.pos_of_ne_zero hmoved, h.fproc⟩

theorem InCall.answered_suspend {q : Request} {moved : Nat} (h : InCall st p q moved) :
    Answered (pipeSuspend st p (q.rest moved)) p SUSPEND := by
  refine Or.inl ⟨rfl, .busy q moved, h.progress, h.flag, h.bound, ?_⟩
  unfold pipeSuspend State.setFproc
  dsimp only
  rw [Function.update_self, h.fproc]

theorem InCall.answered_count {q : Request} {moved : Nat} (h : InCall st p q moved)
    (hall : q.rwFlag = .writing → q.nonblock = false → moved = q.size) :
    Answered (st.setFproc p ⟨0, none⟩) p moved := by
  have hne : (moved : Int) ≠ SUSPEND := by
    unfold SUSPEND
    omega
  refine Or.inr ⟨hne, q, moved, .idle, h.progress, ?_, Function.update_self _ _ _⟩
  by_cases hmoved : moved = 0
  · rw [next_error q moved (by omega), if_pos hmoved]
  · exact (if_pos (by omega)).trans (if_pos ⟨rfl, hall⟩)

theorem rwPipe_spec {q : Request} {moved : Nat} {a : Answer} (hsizes : Sizes size₀ st)
    (hcall : InCall st p q moved) (hsound : a.Sound (q.rest moved) (st.vnode q.filp_vno)) :
    ∃ r st', rwPipe a st p (q.rest moved) = some (r, st') ∧ Sizes size₀ st' ∧
      Frame p st st' ∧ Answered st' p r := by
  rcases hsound with ⟨hcheck, ⟨hpfs, hpfs'⟩, hcount, hwritten⟩
  unfold rwPipe
  dsimp only
  by_cases hpos : a.pipeCheck ≤ 0
  · rw [if_pos hpos]
    by_cases hsuspend : a.pipeCheck = SUSPEND
    · rw [if_pos hsuspend]
      exact ⟨_, _, rfl, hsizes.setFproc _, frame_setFproc _, hcall.answered_suspend⟩
    · rw [if_neg hsuspend]
      exact ⟨_, _, rfl, hsizes, Frame.refl, hcall.answered_error hpos hsuspend⟩
  · rw [if_neg hpos, if_neg (by rw [hsizes.mapped]; decide)]
    by_cases hok : a.reqReadwrite ≠ OK
    · rw [if_pos hok]
      exact ⟨_, _, rfl, hsizes, Frame.refl, hcall.answered_error hpfs hpfs'⟩
    · rw [if_neg hok]
      have hrest : (q.rest moved).size = q.size - moved := rfl
      rcases transferSize_le (st.vnode q.filp_vno) hcheck with ⟨hsize, hread⟩
      have hsizes' := hsizes.move p (q.rest moved).rwFlag q.filp_vno (q.rest moved).buf
        (transferSize (q.rest moved) (st.vnode q.filp_vno) a.pipeCheck) a.cumIoIncr a.newPos hread
      have hcall' := hcall.move a.newPos { st.vnode q.filp_vno with v_size := a.newPos }
        (hcount (Int.not_le.1 hpos) (not_not.1 hok)) (hrest ▸ hsize)
      have hframe : Frame p st ((st.setVnode q.filp_vno { st.vnode q.filp_vno with v_size := a.newPos }).log
          (.moves p q.rwFlag q.filp_vno (q.buf + moved)
            (transferSize (q.rest moved) (st.vnode q.filp_vno) a.pipeCheck) a.cumIoIncr a.newPos)) :=
        frame_move ..
      have hfproc : ∀ vp e, ((st.setVnode q.filp_vno vp).log e).fproc p = ⟨moved, none⟩ :=
        fun _ _ => hcall.fproc
      have hvno : (q.rest moved).filp_vno = q.filp_vno := rfl
      rw [hcall.fproc, hvno, hfproc]
      by_cases hpartial : a.pipeCheck.toNat < (q.rest moved).size ∧ (q.rest moved).nonblock = false
      · rw [if_pos hpartial, rest_rest]
        exact ⟨_, _, rfl, (hsizes'.setFproc _).setFproc _,
          hframe.trans ((frame_setFproc _).trans (frame_setFproc _)), hcall'.answered_suspend⟩
      · rw [if_neg hpartial]
        have hall : q.rwFlag = .writing → q.nonblock = false → moved + a.cumIoIncr = q.size := by
          intro hw hblock
          have hfull : ¬ a.pipeCheck.toNat < (q.rest moved).size := fun h => hpartial ⟨h, hblock⟩
          have hincr := hwritten (Int.not_le.1 hpos) (not_not.1 hok) hw
          have hnot : ¬ ((q.rest moved).rwFlag = .reading ∧
              (st.vnode q.filp_vno).v_size < a.pipeCheck.toNat) := by
            rintro ⟨hr, -⟩
            rw [show (q.rest moved).rwFlag = q.rwFlag from rfl, hw] at hr
            exact absurd hr (by decide)
          rw [transferSize, if_neg hnot] at hincr
          have hb := hcall.bound
          omega
        have hanswered := hcall'.answered_count hall
        unfold State.setFproc at hanswered
        dsimp only at hanswered
        rw [Function.update_idem] at hanswered
        exact ⟨_, _, rfl, hsizes'.setFproc _, hframe.trans (frame_setFproc _), hanswered⟩

/-! ## Calls -/

theorem Answered.reply {r : Int} (h : Answered st p r) : AgreesAt (reply p r st) p := by
  unfold Pipe.reply
  rcases h with ⟨rfl, hagrees⟩ | ⟨hne, q, moved, pr, hprogress, hnext, hagrees⟩
  · rw [if_pos rfl]
    exact hagrees
  · rw [if_neg hne]
    refine ⟨pr, ?_, hagrees⟩
    rw [progressOf_log_self rfl hprogress]
    exact hnext

/-- The signal changes nothing in the progress of the call. -/
theorem Answered.sigpipe {r : Int} (h : Answered st p r) : Answered (st.log (.sigpipe p)) p r := by
  have hsame : progressOf p (st.log (.sigpipe p)).history = progressOf p st.history :=
    progressOf_log_other (by simp [Event.subject])
  unfold Answered AgreesAt
  rw [hsame]
  exact h

theorem frame_reply (r : Int) : Frame p st (reply p r st) := by
  unfold reply
  split
  · exact Frame.refl
  · refine frame_log ?_
    intro x hx heq
    exact hx (Option.some.inj heq).symm

theorem Sizes.reply (h : Sizes size₀ st) (r : Int) : Sizes size₀ (reply p r st) := by
  unfold Pipe.reply
  split
  · exact h
  · exact h.log trivial

/-- The end of an attempt, in a state where the others agree. -/
theorem inv_of_answered {st₁ : State} {r : Int} (hinv : Inv size₀ st) (hsizes : Sizes size₀ st₁)
    (hframe : Frame p st st₁) (hanswered : Answered st₁ p r) :
    Inv size₀ (reply p r st₁) := by
  refine ⟨hsizes.reply r, ?_⟩
  intro x
  by_cases hx : x = p
  · subst hx
    exact hanswered.reply
  · exact (hframe.trans (frame_reply r)).agreesAt hx (hinv.agrees x)

/-- A call that is refused before it starts. -/
theorem Inv.refuses (hinv : Inv size₀ st) : Inv size₀ (st.log (.refuses p)) := by
  refine ⟨hinv.sizes.log trivial, ?_⟩
  intro x
  rcases hinv.agrees x with ⟨pr, hpr, hagrees⟩
  refine ⟨pr, ?_, hagrees⟩
  rw [progressOf_log_other (by simp [Event.subject])]
  exact hpr

/-- What a process without a suspended call shows. -/
theorem AgreesAt.unsuspended (h : AgreesAt st p) (hnone : (st.fproc p).suspended = none) :
    (progressOf p st.history = some .idle ∧ st.fproc p = ⟨0, none⟩) ∨
      ∃ moved, progressOf p st.history = some (.torn moved) ∧ 0 < moved ∧
        st.fproc p = ⟨moved, none⟩ := by
  rcases h with ⟨pr, hpr, hagrees⟩
  cases pr with
  | idle => exact Or.inl ⟨hpr, hagrees⟩
  | busy q moved =>
      rw [hagrees.2.2] at hnone
      exact absurd hnone (by simp)
  | torn moved => exact Or.inr ⟨moved, hpr, hagrees⟩

/-- A call panics exactly when the last one of the process was torn. -/
theorem readWrite_spec {q : Request} {a : Answer} (hinv : Inv size₀ st)
    (hnone : (st.fproc p).suspended = none) (hsound : a.Sound q (st.vnode q.filp_vno)) :
    (readWrite a st p q = none ∧ q.size ≤ SSIZE_MAX ∧
        ∃ moved, progressOf p st.history = some (.torn moved)) ∨
      (∃ st', readWrite a st p q = some st' ∧ Inv size₀ st') ∧
        (SSIZE_MAX < q.size ∨ progressOf p st.history = some .idle) := by
  unfold readWrite
  by_cases hlarge : SSIZE_MAX < q.size
  · rw [if_pos hlarge]
    exact Or.inr ⟨⟨_, rfl, hinv.refuses⟩, Or.inl hlarge⟩
  · rw [if_neg hlarge]
    rcases (hinv.agrees p).unsuspended hnone with ⟨hidle, hfproc⟩ | ⟨moved, htorn, hpos, hfproc⟩
    · have hzero : ¬ (st.fproc p).fpCumIoPartial ≠ 0 := by
        rw [hfproc]
        exact fun h => h rfl
      rw [if_neg hzero]
      refine Or.inr ⟨?_, Or.inr hidle⟩
      by_cases hpeek : q.rwFlag = .peeking
      · rw [if_pos hpeek]
        exact ⟨_, rfl, hinv.refuses⟩
      · rw [if_neg hpeek]
        have hcall : InCall (st.log (.starts p q)) p q 0 := by
          refine ⟨?_, hfproc, Nat.zero_le _, hpeek⟩
          rw [progressOf_log_self rfl hidle]
          rfl
        have hstart : Frame p st (st.log (.starts p q)) := by
          refine frame_log ?_
          intro x hx heq
          exact hx (Option.some.inj heq).symm
        have hlogged : Sizes size₀ (st.log (.starts p q)) := hinv.sizes.log trivial
        rcases rwPipe_spec hlogged hcall hsound with ⟨r, st', hrun, hsizes, hframe, hans⟩
        rw [show q.rest 0 = q from rfl] at hrun
        rw [hrun]
        dsimp only [Option.map_some]
        split
        · refine ⟨_, rfl, inv_of_answered hinv (hsizes.log trivial) ?_ hans.sigpipe⟩
          refine (hstart.trans hframe).trans (frame_log ?_)
          intro x _ heq
          exact absurd heq (by simp [Event.subject])
        · exact ⟨_, rfl, inv_of_answered hinv hsizes (hstart.trans hframe) hans⟩
    · have hnot : (st.fproc p).fpCumIoPartial ≠ 0 := by
        rw [hfproc]
        exact Nat.pos_iff_ne_zero.1 hpos
      rw [if_pos hnot]
      exact Or.inl ⟨rfl, Nat.le_of_not_lt hlarge, moved, htorn⟩

theorem resume_spec {a : Answer} (hinv : Inv size₀ st)
    (hsound : ∀ q, (st.fproc p).suspended = some q → a.Sound q (st.vnode q.filp_vno)) :
    ∃ st', resume a st p = some st' ∧ Inv size₀ st' := by
  unfold resume
  cases hq : (st.fproc p).suspended with
  | none => exact ⟨st, rfl, hinv⟩
  | some rest =>
      dsimp only
      rcases hinv.agrees p with ⟨pr, hpr, hagrees⟩
      cases pr with
      | idle =>
          rw [hagrees] at hq
          exact absurd hq (by simp)
      | torn moved =>
          rw [hagrees.2] at hq
          exact absurd hq (by simp)
      | busy q moved =>
          rcases hagrees with ⟨hflag, hbound, hfproc⟩
          have hrest : rest = q.rest moved := by
            rw [hfproc] at hq
            exact (Option.some.inj hq).symm
          subst hrest
          have hcall : InCall (st.setFproc p { st.fproc p with suspended := none }) p q moved := by
            refine ⟨hpr, ?_, hbound, hflag⟩
            unfold State.setFproc
            dsimp only
            rw [Function.update_self, hfproc]
          rcases rwPipe_spec (hinv.sizes.setFproc _) hcall (hsound _ hq) with
            ⟨r, st', hrun, hsizes, hframe, hans⟩
          rw [hrun]
          exact ⟨_, rfl, inv_of_answered hinv hsizes ((frame_setFproc _).trans hframe) hans⟩

/-! ## Runs -/

/-- A process starts a call after a torn one. -/
def AfterTorn (st : State) : Step → Prop
  | .call p q _ => q.size ≤ SSIZE_MAX ∧ ∃ moved, progressOf p st.history = some (.torn moved)
  | .resume _ _ => False

theorem step_spec {s : Step} (hinv : Inv size₀ st) (hallowed : Allowed st s) :
    (step st s = none ∧ AfterTorn st s) ∨
      (∃ st', step st s = some st' ∧ Inv size₀ st') ∧ ¬ AfterTorn st s := by
  cases s with
  | call p q a =>
      rcases readWrite_spec hinv hallowed.1 hallowed.2 with h | ⟨h, hnot⟩
      · exact Or.inl h
      · refine Or.inr ⟨h, ?_⟩
        rintro ⟨hsize, moved, htorn⟩
        rcases hnot with hlarge | hidle
        · omega
        · rw [hidle] at htorn
          exact absurd htorn (by simp)
  | resume p a => exact Or.inr ⟨resume_spec hinv hallowed, not_false⟩

/-! ## All runs -/

/-- No call was made yet. -/
def start (size₀ : Nat → Nat) : State where
  vnode v := ⟨size₀ v, true⟩
  fproc _ := ⟨0, none⟩
  history := []

theorem start_inv : Inv size₀ (start size₀) where
  sizes := ⟨fun _ => rfl, fun before e after h => absurd h (by simp [start]), fun _ => rfl⟩
  agrees _ := ⟨.idle, rfl, rfl⟩

end Invariant

/-- **Pipes.**  In every order of the calls and their resumptions, every call of every process moves its
bytes in order, each of them once, from where the last attempt stopped, and the count it returns is what
it has moved.  `v_size` is the size that the server has reported last, and no read asks for more. -/
theorem pipe_run (size₀ : Nat → Nat) (steps : List Step)
    (hguard : Guarded step Allowed (start size₀) steps) (st : State)
    (hrun : steps.foldlM step (start size₀) = some st) :
    Sizes size₀ st ∧ ∀ p, ∃ pr, progressOf p st.history = some pr ∧ Agrees (st.fproc p) pr := by
  have hinv : Inv size₀ st := by
    refine hguard.keeps ?_ hrun start_inv
    intro s e s' hs hallowed hstep
    rcases step_spec hs hallowed with ⟨hnone, -⟩ | ⟨⟨s₁, hsome, hs₁⟩, -⟩
    · rw [hnone] at hstep
      exact absurd hstep (by simp)
    · rw [hsome] at hstep
      cases hstep
      exact hs₁
  exact ⟨hinv.sizes, hinv.agrees⟩

def sixBytes : Request :=
  { filp_vno := 0, rwFlag := .writing, buf := 100, size := 6, nonblock := false, nosigpipe := true }

def tornSteps : List Step :=
  [.call 0 sixBytes ⟨4, OK, 4, 4⟩, .call 1 { sixBytes with rwFlag := .reading, size := 3 } ⟨3, OK, 1, 3⟩,
    .resume 0 ⟨EPIPE, OK, 0, 0⟩]

theorem guarded_torn (after : List Step) (hafter : ∀ st,
    tornSteps.foldlM step (start fun _ => 0) = some st → Guarded step Allowed st after) :
    Guarded step Allowed (start fun _ => 0) (tornSteps ++ after) := by
  refine Guarded.cons _ rfl ⟨rfl, by decide, by decide, by decide, by decide⟩ ?_
  refine Guarded.cons _ rfl ⟨rfl, by decide, by decide, by decide, by decide⟩ ?_
  refine Guarded.cons _ rfl ?_ (hafter _ rfl)
  intro q hq
  cases hq
  exact ⟨by decide, by decide, by decide, by decide⟩

theorem pipe_run_torn :
    ∃ st, tornSteps.foldlM step (start fun _ => 0) = some st ∧ (st.vnode 0).v_size = 1 ∧
      progressOf 0 st.history = some (.torn 4) ∧ progressOf 1 st.history = some .idle ∧
      Sizes (fun _ => 0) st := by
  have hguard : Guarded step Allowed (start fun _ => 0) tornSteps :=
    guarded_torn [] fun _ _ => trivial
  refine ⟨_, rfl, by decide, by decide, by decide, ?_⟩
  exact (pipe_run (fun _ => 0) tornSteps hguard _ rfl).1

end Pipe
end Vfs
end OsLab
