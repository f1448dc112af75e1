import OsLab.Lib.Runs
import OsLab.Sched.Model

/-!
# Priority — the range of the priorities

Every handler but one keeps the priority of a slot in use below `NR_SCHED_QUEUES`.  `do_noquantum`
was changed from lowering the priority of a process to raising it, by subtracting one, and its guard
still looks at the other end of the range: at priority 0 the unsigned field wraps around.  From then
on `schedule_process` passes `-1` to the kernel, which takes it as "leave the priority unchanged".

`priorities_valid_iff` says that the priorities stay valid along a run if and only if no process with
priority 0 runs out of quantum in it.
-/

namespace OsLab
namespace Sched

open Lib

variable {cfg : Config} {st : State} {n : Nat}

/-- What the code relies on in the endpoint checks: they name slots of the table, in use or not. -/
structure EndptOk (cfg : Config) : Prop where
  isok : ∀ slots e n, cfg.isokendpt slots e = .ok n → n < cfg.NR_PROCS ∧ (slots n).InUse
  isemty : ∀ slots e n, cfg.isemtyendpt slots e = .ok n → n < cfg.NR_PROCS ∧ ¬ (slots n).InUse

/-- A call that changes the priority passes on the priority of the slot, which is a valid one. -/
def SysSchedule.Valid (cfg : Config) (c : SysSchedule) : Prop :=
  c.flags &&& SCHEDULE_CHANGE_PRIO ≠ 0 →
    c.newPrio = (c.slotPrio.toNat : Int) ∧ c.slotPrio.toNat < cfg.NR_SCHED_QUEUES ∧ c.newPrio ≠ -1

/-- Every slot in use has a valid priority, and so has every call that was made. -/
structure Valid (cfg : Config) (st : State) : Prop where
  slots : ∀ n, n < cfg.NR_PROCS → (st.schedproc n).InUse →
    (st.schedproc n).priority.toNat < cfg.NR_SCHED_QUEUES
  calls : ∀ c ∈ st.sent, c.Valid cfg

/-- A process of priority 0 runs out of quantum. -/
def Underflow (cfg : Config) (st : State) (e : Event) : Prop :=
  st.waiting = false ∧ ∃ source reply n, e = .noquantum source reply ∧
    cfg.isokendpt st.schedproc source = .ok n ∧ (st.schedproc n).priority = 0

/-! ## Single slots -/

@[simp] theorem modify_self (f : Schedproc → Schedproc) :
    (st.modify n f).schedproc n = f (st.schedproc n) := by
  simp [State.modify]

theorem modify_ne {m : Nat} (f : Schedproc → Schedproc) (hm : m ≠ n) :
    (st.modify n f).schedproc m = st.schedproc m := by
  simp [State.modify, hm]

@[simp] theorem modify_sent (f : Schedproc → Schedproc) : (st.modify n f).sent = st.sent := rfl

/-- Two slots that differ in the processor at most. -/
def SamePrio (p q : Schedproc) : Prop :=
  p.priority = q.priority ∧ p.flags = q.flags

theorem pickCpu_slot (cfg : Config) (st : State) (n m : Nat) :
    SamePrio ((pickCpu cfg st n).schedproc m) (st.schedproc m) := by
  have hcpu : ∀ c : UInt32,
      SamePrio ((st.modify n fun p => { p with cpu := c }).schedproc m) (st.schedproc m) := by
    intro c
    by_cases hm : m = n
    · subst hm
      simp [SamePrio]
    · simp [SamePrio, modify_ne _ hm]
  simp only [pickCpu]
  split_ifs
  · exact hcpu 0
  · exact hcpu cfg.bsp_id
  · exact hcpu cfg.bsp_id
  · exact hcpu _

@[simp] theorem pickCpu_sent (cfg : Config) (st : State) (n : Nat) :
    (pickCpu cfg st n).sent = st.sent := by
  simp only [pickCpu]
  split_ifs <;> rfl

theorem scheduleProcess_slot (cfg : Config) (st : State) (n flags m : Nat) :
    SamePrio ((scheduleProcess cfg st n flags).schedproc m) (st.schedproc m) :=
  pickCpu_slot cfg st n m

theorem toSigned_of_lt {x : UInt32} (hx : x.toNat < 2 ^ 31) : toSigned x = (x.toNat : Int) := by
  rw [toSigned, BitVec.toInt_eq_toNat_of_lt]
  · rfl
  · have h2 : 2 * x.toNat < 2 ^ 32 := by omega
    exact h2

namespace Valid

/-- A change of one slot that leaves it with a valid priority or out of use. -/
theorem modify (h : Valid cfg st) {f : Schedproc → Schedproc}
    (hf : n < cfg.NR_PROCS → (f (st.schedproc n)).InUse →
      (f (st.schedproc n)).priority.toNat < cfg.NR_SCHED_QUEUES) : Valid cfg (st.modify n f) := by
  refine ⟨?_, h.calls⟩
  intro m hm huse
  by_cases hmn : m = n
  · subst hmn
    rw [modify_self] at huse ⊢
    exact hf hm huse
  · rw [modify_ne f hmn] at huse ⊢
    exact h.slots m hm huse

theorem of_slots (h : Valid cfg st) {st' : State} (hsent : st'.sent = st.sent)
    (hslots : ∀ m, SamePrio (st'.schedproc m) (st.schedproc m)) : Valid cfg st' := by
  refine ⟨?_, hsent ▸ h.calls⟩
  intro m hm huse
  rcases hslots m with ⟨hprio, hflags⟩
  rw [hprio]
  refine h.slots m hm ?_
  rw [Schedproc.InUse, ← hflags]
  exact huse

theorem pickCpu (h : Valid cfg st) : Valid cfg (pickCpu cfg st n) :=
  h.of_slots (pickCpu_sent cfg st n) (pickCpu_slot cfg st n)

/-- `schedule_process` on a slot in use passes a valid priority on. -/
theorem scheduleProcess (h : Valid cfg st) (hn : n < cfg.NR_PROCS) (huse : (st.schedproc n).InUse)
    (flags : Nat) : Valid cfg (scheduleProcess cfg st n flags) := by
  have hpick : Valid cfg (Sched.pickCpu cfg st n) := h.pickCpu
  rcases pickCpu_slot cfg st n n with ⟨hprio, _⟩
  have hlt := h.slots n hn huse
  refine ⟨hpick.slots, ?_⟩
  intro c hc
  -- Only the call made here is new.
  rcases List.mem_append.1 hc with hc | hc
  · exact hpick.calls c hc
  · rw [List.mem_singleton] at hc
    subst hc
    intro hflag
    simp only at hflag
    simp only [hflag, ne_eq, not_false_iff, if_true]
    -- In range, the conversion from `unsigned` to `int` keeps the value, which is then not `-1`.
    rw [hprio, toSigned_of_lt (by have := cfg.queues_fit; omega)]
    exact ⟨rfl, hlt, by omega⟩

theorem balanceSlot (h : Valid cfg st) (hn : n < cfg.NR_PROCS) :
    Valid cfg (balanceSlot cfg st n) := by
  simp only [Sched.balanceSlot]
  split_ifs with hcond
  · exact h.scheduleProcess hn hcond.1 _
  · exact h

theorem balanceQueues (h : Valid cfg st) : Valid cfg (balanceQueues cfg st) := by
  -- Each turn of the loop looks at one slot of the table.
  have hfold : ∀ (ns : List Nat) (st : State), (∀ n ∈ ns, n < cfg.NR_PROCS) → Valid cfg st →
      Valid cfg (ns.foldl (Sched.balanceSlot cfg) st) := by
    intro ns
    induction ns with
    | nil =>
        intro st _ h
        exact h
    | cons n ns ih =>
        intro st hns h
        exact ih _ (fun m hm => hns m (List.mem_cons_of_mem n hm))
          (h.balanceSlot (hns n List.mem_cons_self))
  refine hfold _ _ ?_ h
  intro n hn
  exact List.mem_range.1 hn

/-! ## Handlers -/

theorem doNoquantum (h : Valid cfg st) (hends : EndptOk cfg) {source reply : Int}
    (hpos : ∀ n, cfg.isokendpt st.schedproc source = .ok n → (st.schedproc n).priority ≠ 0) :
    Valid cfg (doNoquantum cfg st source reply).2 := by
  simp only [Sched.doNoquantum]
  cases hslot : cfg.isokendpt st.schedproc source with
  | error rv => exact h
  | ok n =>
      rcases hends.isok _ _ _ hslot with ⟨hn, huse⟩
      have hlt := h.slots n hn huse
      have hne := hpos n hslot
      simp only
      split_ifs with hguard
      · -- Above 0 the subtraction does not wrap.
        have hsub : ((st.schedproc n).priority - 1).toNat < cfg.NR_SCHED_QUEUES := by
          have h1 : 1 ≤ (st.schedproc n).priority := by
            rw [UInt32.le_iff_toNat_le, UInt32.toNat_one]
            exact Nat.one_le_iff_ne_zero.2 fun h0 => hne (UInt32.toNat_inj.1 h0)
          rw [UInt32.toNat_sub_of_le _ _ h1]
          omega
        have hmod : Valid cfg (st.modify n fun p => { p with priority := p.priority - 1 }) :=
          h.modify fun _ _ => hsub
        refine hmod.scheduleProcess hn ?_ _
        rw [modify_self]
        exact huse
      · exact h.scheduleProcess hn huse _

theorem doStopScheduling (h : Valid cfg st) {source endpoint : Int} :
    Valid cfg (doStopScheduling cfg st source endpoint).2 := by
  -- A slot that leaves the table may keep any priority.
  have hstop : ∀ {st' : State} {m : Nat}, Valid cfg st' →
      Valid cfg (st'.modify m fun p => { p with flags := 0 }) := by
    intro st' m h'
    refine h'.modify ?_
    intro _ huse
    simp [Schedproc.InUse] at huse
  by_cases haccept : cfg.acceptMessage source = false
  · simp only [Sched.doStopScheduling, haccept, if_true]
    exact h
  · rw [Sched.doStopScheduling, if_neg haccept]
    cases cfg.isokendpt st.schedproc endpoint with
    | error rv => exact h
    | ok n =>
        simp only
        split_ifs
        · have hcpu : Valid cfg
              { st with
                cpuProc := Function.update st.cpuProc (st.schedproc n).cpu.toNat
                  (st.cpuProc (st.schedproc n).cpu.toNat - 1) } :=
            h.of_slots rfl fun _ => ⟨rfl, rfl⟩
          exact hstop hcpu
        · exact hstop h

theorem doNice (h : Valid cfg st) (hends : EndptOk cfg) {source endpoint reply : Int}
    {newQ : UInt32} : Valid cfg (doNice cfg st source endpoint newQ reply).2 := by
  by_cases haccept : cfg.acceptMessage source = false
  · simp only [Sched.doNice, haccept, if_true]
    exact h
  · rw [Sched.doNice, if_neg haccept]
    cases hslot : cfg.isokendpt st.schedproc endpoint with
    | error rv => exact h
    | ok n =>
        rcases hends.isok _ _ _ hslot with ⟨hn, huse⟩
        have hold := h.slots n hn huse
        simp only
        split_ifs with hrange hreply
        · exact h
        -- The new priority was checked against the range before it is stored.
        all_goals
          have hmod : Valid cfg
              (st.modify n fun p => { p with maxPriority := newQ, priority := newQ }) :=
            h.modify fun _ _ => Nat.lt_of_not_le hrange
          have hsched := hmod.scheduleProcess hn (by rw [modify_self]; exact huse)
            ( SCHEDULE_CHANGE_PRIO ||| SCHEDULE_CHANGE_QUANTUM)
        · -- The kernel refused, and the old priority comes back.
          have hback : Valid cfg ((Sched.scheduleProcess cfg
              (st.modify n fun p => { p with maxPriority := newQ, priority := newQ }) n
              ( SCHEDULE_CHANGE_PRIO ||| SCHEDULE_CHANGE_QUANTUM)).modify n fun p =>
                { p with
                  priority := (st.schedproc n).priority
                  maxPriority := (st.schedproc n).maxPriority }) :=
            hsched.modify fun _ _ => hold
          exact hback
        · exact hsched

theorem retrySchedule (hn : n < cfg.NR_PROCS) :
    ∀ {replies : List Int} {st : State}, Valid cfg st → (st.schedproc n).InUse →
      Valid cfg (retrySchedule cfg n st replies).2
  | replies, st, h, huse => by
      have hsched := h.scheduleProcess hn huse SCHEDULE_CHANGE_ALL
      rw [Sched.retrySchedule.eq_def]
      cases replies with
      | nil => exact hsched.of_slots rfl fun _ => ⟨rfl, rfl⟩
      | cons reply replies =>
          simp only
          split_ifs with hbad
          · -- The processor is marked dead and another one is picked; the slot stays in use.
            refine retrySchedule hn ?_ ?_
            · refine Valid.pickCpu ?_
              exact hsched.of_slots rfl fun _ => ⟨rfl, rfl⟩
            · rw [Schedproc.InUse, (pickCpu_slot cfg _ n n).2]
              have hflags := (scheduleProcess_slot cfg st n SCHEDULE_CHANGE_ALL n).2
              simp only [hflags]
              exact huse
          · exact hsched

/-- A slot out of use may hold anything. -/
theorem modify_unused (h : Valid cfg st) {f : Schedproc → Schedproc}
    (hfree : ¬ (st.schedproc n).InUse) (hflags : ∀ p, (f p).flags = p.flags) :
    Valid cfg (st.modify n f) ∧ ¬ ((st.modify n f).schedproc n).InUse := by
  have hfree' : ¬ (f (st.schedproc n)).InUse := by
    rw [Schedproc.InUse, hflags]
    exact hfree
  refine ⟨h.modify fun _ huse => absurd huse hfree', ?_⟩
  rw [modify_self]
  exact hfree'

/-- What `init` gets first is overwritten later. -/
theorem populateInit (h : Valid cfg st) (hfree : ¬ (st.schedproc n).InUse) {m : StartMessage} :
    Valid cfg (populateInit cfg st n m) ∧
      ((populateInit cfg st n m).schedproc n).maxPriority = (st.schedproc n).maxPriority := by
  by_cases hself : m.endpoint = m.parent
  · rw [Sched.populateInit, if_pos hself]
    refine ⟨(h.modify_unused (f := fun p => { p with
      priority := cfg.USER_Q
      timeSlice := DEFAULT_USER_TIME_SLICE
      cpu := if cfg.CONFIG_SMP then cfg.bsp_id else p.cpu }) hfree fun _ => rfl).1, ?_⟩
    rw [modify_self]
  · rw [Sched.populateInit, if_neg hself]
    exact ⟨h, rfl⟩

/-- `populate` fills a slot out of use; when it succeeds, the priority is a valid one. -/
theorem populate (h : Valid cfg st) (hends : EndptOk cfg) {m : StartMessage}
    {res : Except Int Unit} {st' : State} (hfree : ¬ (st.schedproc n).InUse)
    (hpop : populate cfg st n m = (res, st')) :
    Valid cfg st' ∧
      (res = .ok () → (st'.schedproc n).priority.toNat < cfg.NR_SCHED_QUEUES) := by
  simp only [Sched.populate] at hpop
  have h1 := h.modify_unused (n := n)
    (f := fun p => { p with endpoint := m.endpoint, parent := m.parent, maxPriority := m.maxprio })
    hfree fun _ => rfl
  have hmax1 : ((st.modify n fun p => { p with
      endpoint := m.endpoint, parent := m.parent, maxPriority := m.maxprio }).schedproc
        n).maxPriority = m.maxprio := by
    rw [modify_self]
  generalize (st.modify n fun p =>
    { p with endpoint := m.endpoint, parent := m.parent, maxPriority := m.maxprio }) = st1
      at hpop h1 hmax1
  -- The check comes after the slot was written to, but a slot out of use is not looked at.
  by_cases hrange : cfg.NR_SCHED_QUEUES ≤ m.maxprio.toNat
  · simp only [hrange, if_true] at hpop
    cases hpop
    exact ⟨h1.1, fun hres => by cases hres⟩
  · simp only [hrange, if_false] at hpop
    rcases h1.1.populateInit h1.2 (m := m) with ⟨hvalid, hmax2⟩
    rw [hmax1] at hmax2
    generalize Sched.populateInit cfg st1 n m = st2 at hpop hvalid hmax2
    cases htype : m.type with
    | start =>
        simp only [htype] at hpop
        cases hpop
        have hprio : (st2.schedproc n).maxPriority.toNat < cfg.NR_SCHED_QUEUES := by
          rw [hmax2]
          exact Nat.lt_of_not_le hrange
        refine ⟨hvalid.modify fun _ _ => hprio, fun _ => ?_⟩
        rw [modify_self]
        exact hprio
    | inherit =>
        simp only [htype] at hpop
        cases hslot : cfg.isokendpt st2.schedproc m.parent with
        | error rv =>
            simp only [hslot] at hpop
            cases hpop
            exact ⟨hvalid, fun hres => by cases hres⟩
        | ok parent =>
            simp only [hslot] at hpop
            cases hpop
            rcases hends.isok _ _ _ hslot with ⟨hparent, huse⟩
            -- The priority comes from the slot of the parent, which is in use.
            have hprio := hvalid.slots parent hparent huse
            refine ⟨hvalid.modify fun _ _ => hprio, fun _ => ?_⟩
            rw [modify_self]
            exact hprio

theorem doStartScheduling (h : Valid cfg st) (hends : EndptOk cfg) {source ctl : Int}
    {m : StartMessage} {replies : List Int} :
    Valid cfg (doStartScheduling cfg st source m ctl replies).2 := by
  by_cases haccept : cfg.acceptMessage source = false
  · simp only [Sched.doStartScheduling, haccept, if_true]
    exact h
  · rw [Sched.doStartScheduling, if_neg haccept]
    cases hslot : cfg.isemtyendpt st.schedproc m.endpoint with
    | error rv => exact h
    | ok n =>
        rcases hends.isemty _ _ _ hslot with ⟨hn, hfree⟩
        cases hpop : Sched.populate cfg st n m with
        | mk res st1 =>
            rcases h.populate hends hfree hpop with ⟨h1, hprio⟩
            simp only [hpop]
            cases res with
            | error rv => exact h1
            | ok u =>
                split_ifs with hctl
                · exact h1
                · have huse : Valid cfg (st1.modify n fun p => { p with flags := IN_USE }) :=
                    h1.modify fun _ _ => hprio rfl
                  refine retrySchedule hn huse.pickCpu ?_
                  rw [Schedproc.InUse, (pickCpu_slot cfg _ n n).2, modify_self]
                  exact (by decide : IN_USE &&& IN_USE ≠ 0)

end Valid

/-! ## Events -/

/-- Every event but an underflow keeps the priorities valid. -/
theorem Valid.step (h : Valid cfg st) (hends : EndptOk cfg) {e : Event} {st' : State}
    (hno : ¬ Underflow cfg st e) (hstep : step cfg st e = some st') : Valid cfg st' := by
  simp only [Sched.step] at hstep
  cases hwait : st.waiting with
  | true => simp [hwait] at hstep
  | false =>
      have hst : (handle cfg st e).2 = st' := by simpa [hwait] using hstep
      subst hst
      cases e with
      | noquantum source reply =>
          refine h.doNoquantum hends ?_
          intro n hslot hzero
          exact hno ⟨hwait, source, reply, n, rfl, hslot, hzero⟩
      | stop source endpoint => exact h.doStopScheduling
      | start source m ctl replies => exact h.doStartScheduling hends
      | nice source endpoint maxprio reply => exact h.doNice hends
      | balance => exact h.balanceQueues

/-- An underflow leaves a slot in use with a priority far out of range. -/
theorem underflow_invalid (hends : EndptOk cfg) {e : Event} (hunder : Underflow cfg st e) :
    ∃ st', step cfg st e = some st' ∧ ¬ Valid cfg st' := by
  rcases hunder with ⟨hwait, source, reply, n, rfl, hslot, hzero⟩
  rcases hends.isok _ _ _ hslot with ⟨hn, huse⟩
  -- The guard looks at the lower end of the queues, so priority 0 passes it.
  have hguard : (st.schedproc n).priority.toNat < cfg.MIN_USER_Q := by
    have htwo := cfg.two_queues
    rw [hzero, Config.MIN_USER_Q, UInt32.toNat_zero]
    omega
  refine ⟨_, by simp only [step, hwait]; rfl, ?_⟩
  intro hvalid
  simp only [handle, doNoquantum, hslot, hguard, if_true] at hvalid
  have hslots := hvalid.slots n hn
  rcases scheduleProcess_slot cfg
    (st.modify n fun p => { p with priority := p.priority - 1 }) n
    ( SCHEDULE_CHANGE_PRIO ||| SCHEDULE_CHANGE_QUANTUM) n with ⟨hprio, hflags⟩
  rw [modify_self] at hprio hflags
  have hlt := hslots (by rw [Schedproc.InUse, scheduleProcessLocal, hflags]; exact huse)
  rw [scheduleProcessLocal, hprio] at hlt
  simp only [hzero] at hlt
  have hfit := cfg.queues_fit
  -- `0 - 1` is the largest value of the field.
  have hwrap : ((0 : UInt32) - 1).toNat = 2 ^ 32 - 1 := by decide
  rw [hwrap] at hlt
  omega

theorem valid_initial (cfg : Config) : Valid cfg initial := by
  refine ⟨?_, ?_⟩
  · intro n _ huse
    simp [initial, Schedproc.InUse] at huse
  · intro c hc
    simp [initial] at hc

/-- In every sequence of events, with any answers of the kernel, the priorities of the slots in use
and those passed to the kernel are valid in every state reached if and only if no process with
priority 0 runs out of quantum on the way. -/
theorem priorities_valid_iff (cfg : Config) (hends : EndptOk cfg) (es : List Event) :
    Along (step cfg) (Valid cfg) initial es ↔
      Guarded (step cfg) (fun st e => ¬ Underflow cfg st e) initial es := by
  refine along_iff_guarded (fun _ h => h) ?_ ?_ es initial (valid_initial cfg)
  · intro st e st' h hno hstep
    exact h.step hends hno hstep
  · intro st e _ hunder
    exact underflow_invalid hends (not_not.1 hunder)

/-- A machine with one processor.  The processes `0` to `255` have the endpoints `0` to `255`. -/
def uniprocessor : Config where
  EBADEPT := -215
  EBADCPU := -217
  NR_PROCS := 256
  NR_SCHED_QUEUES := 16
  USER_Q := 7
  RS_PROC_NR := 2
  CONFIG_SMP := false
  processors_count := 1
  bsp_id := 0
  acceptMessage := fun _ => true
  isokendpt := fun slots e =>
    if e < 0 ∨ 256 ≤ e then .error EINVAL
    else if (slots e.toNat).endpoint ≠ e ∨ ¬ (slots e.toNat).InUse then .error (-216)
    else .ok e.toNat
  isemtyendpt := fun slots e =>
    if e < 0 ∨ 256 ≤ e then .error EINVAL
    else if (slots e.toNat).InUse then .error (-216)
    else .ok e.toNat
  two_queues := by decide
  queues_fit := by decide

theorem uniprocessor_endpts : EndptOk uniprocessor where
  isok := by
    intro slots e n h
    simp only [uniprocessor] at h ⊢
    split_ifs at h with hrange hslot
    cases h
    rw [not_or, not_not] at hslot
    exact ⟨by omega, not_not.1 hslot.2⟩
  isemty := by
    intro slots e n h
    simp only [uniprocessor] at h ⊢
    split_ifs at h with hrange hslot
    cases h
    exact ⟨by omega, hslot⟩

/-- A process starts with priority 7 and runs out of quantum `k` times. -/
def busyProcess (k : Nat) : List Event :=
  .start 0 ⟨.start, 5, 2, 7, 200⟩ OK [OK] :: List.replicate k (.noquantum 5 OK)

theorem priorities_valid_iff_seven :
    Along (step uniprocessor) (Valid uniprocessor) initial (busyProcess 7) ↔
      Guarded (step uniprocessor) (fun st e => ¬ Underflow uniprocessor st e) initial
        (busyProcess 7) :=
  priorities_valid_iff uniprocessor uniprocessor_endpts (busyProcess 7)

/-- The kernel takes `-1` for a call that does not change the priority. -/
theorem schedProc_keeps_priority (k : Kernel) (p : Proc) (quantum cpu : Int) :
    (schedProc k p (-1) quantum cpu).2.p_priority = p.p_priority := by
  simp only [schedProc]
  split_ifs <;> first | rfl | contradiction

/-- After eight quanta the priority has wrapped around.  The last call passed `-1`, and the kernel
left the priority of the process as it was. -/
theorem eighth_quantum_wraps :
    ¬ Along (step uniprocessor) (Valid uniprocessor) initial (busyProcess 8) ∧
      ∃ st c, (busyProcess 8).foldlM (step uniprocessor) initial = some st ∧
        (st.schedproc 5).priority = 0xffffffff ∧ st.sent.getLast? = some c ∧
        c.flags &&& SCHEDULE_CHANGE_PRIO ≠ 0 ∧ c.newPrio = -1 ∧
        ∀ k p, (schedProc k p c.newPrio c.newQuantum c.newCpu).2.p_priority = p.p_priority := by
  have hresult : ((busyProcess 8).foldlM (step uniprocessor) initial).map
      (fun st => ((st.schedproc 5).priority, (st.schedproc 5).flags, st.sent.getLast?)) =
        some (0xffffffff, IN_USE, some ⟨5, 3, -1, 200, -1, 0xffffffff⟩) := by
    decide +kernel
  rcases Option.map_eq_some_iff.1 hresult with ⟨st, hrun, hend⟩
  simp only [Prod.mk.injEq] at hend
  rcases hend with ⟨hprio, hflags, hlast⟩
  refine ⟨?_, st, _, hrun, hprio, hlast, by decide, rfl, ?_⟩
  · intro halong
    have hvalid := halong.last hrun
    have hlt := hvalid.slots 5 (by decide) (by rw [Schedproc.InUse, hflags]; decide)
    rw [hprio] at hlt
    exact absurd hlt (by decide)
  · intro k p
    exact schedProc_keeps_priority k p _ _

end Sched
end OsLab
