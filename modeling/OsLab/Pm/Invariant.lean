import OsLab.Pm.Model

/-!
# Invariant — what holds of the process table between and inside calls

`Inv env D X s` is kept by every part of a call.  The processes of `D` are exiting and their children
have not all been given to INIT yet; the slots of `X` are those whose exit is just being reported.
Between calls both sets are empty.
-/

namespace OsLab
namespace Pm

variable {n : Nat}

abbrev Table.flags (s : Table n) (c : Fin n) : Flags :=
  (s.mproc c).mp_flags

/-! ## Definition -/

/-- The bits of one slot fit together, and agree with the request that VFS has. -/
structure SlotOk (env : Env n) (m : Mproc n) (v : Option VfsCall) : Prop where
  zombie : m.mp_flags.ZOMBIE = true →
    m.mp_flags.EXITING = true ∧ m.mp_flags.TRACE_ZOMBIE = false ∧ m.mp_flags.TOLD_PARENT = false
  trace_zombie : m.mp_flags.TRACE_ZOMBIE = true →
    m.mp_flags.EXITING = true ∧ m.mp_flags.TOLD_PARENT = false
  told : m.mp_flags.TOLD_PARENT = true → m.mp_flags.EXITING = true
  waiting : m.mp_flags.EXITING = true → m.mp_flags.WAITING = false
  vfs_call : m.mp_flags.VFS_CALL = v.isSome
  exit_call : v = some .exit ∨ v = some .dumpcore → m.mp_flags.EXITING = true
  exiting : m.mp_flags.EXITING = true → v = none ∨ v = some .exit ∨ v = some .dumpcore
  dumpcore : v = some .dumpcore →
    m.mp_flags.ZOMBIE = false ∧ m.mp_flags.TRACE_ZOMBIE = false ∧ m.mp_flags.TOLD_PARENT = false
  trace_exit : m.mp_flags.TRACE_EXIT = true → m.mp_tracer ≠ none
  scheduler : m.mp_flags.PRIV_PROC = true → m.mp_scheduler = none
  server : m.mp_endpoint = env.VFS_PROC_NR → m.mp_flags.PRIV_PROC = true
  pid : 0 < m.mp_pid
  procgrp : 0 ≤ m.mp_procgrp

/-- The report of an exit is where it has to be: an exiting process waits for its tracer, for its
parent or for VFS, and nobody that has to hear of it sleeps in `waitpid`. -/
structure Settled (s : Table n) (c : Fin n) : Prop where
  marked : (s.flags c).EXITING = true →
    (s.flags c).ZOMBIE = true ∨ (s.flags c).TRACE_ZOMBIE = true ∨ (s.flags c).TOLD_PARENT = true ∨
      s.vfs c = some .dumpcore
  told : (s.flags c).TOLD_PARENT = true → s.vfs c ≠ none
  traced : (s.flags c).TRACE_ZOMBIE = true → (s.mproc c).mp_tracer ≠ none
  parent : (s.flags c).ZOMBIE = true →
    waitTest (s.mproc (s.mproc c).mp_parent) (s.mproc c) = false
  tracer : (s.flags c).TRACE_ZOMBIE = true → ∀ t, (s.mproc c).mp_tracer = some t →
    waitTest (s.mproc t) (s.mproc c) = false

/-- A process that others may point to. -/
structure Present (D : Set (Fin n)) (s : Table n) (p : Fin n) : Prop where
  pos : p.val ≠ 0
  in_use : (s.flags p).IN_USE = true
  exiting : (s.flags p).EXITING = true → p ∈ D

def Table.used (s : Table n) : Finset (Fin n) :=
  Finset.univ.filter fun c => (s.flags c).IN_USE = true

structure Inv (env : Env n) (D X : Set (Fin n)) (s : Table n) : Prop where
  count : s.procs_in_use = (s.used.card : Int)
  free : ∀ c, (s.flags c).IN_USE = false → s.vfs c = none ∧ (s.flags c).ZOMBIE = false
  init : (s.mproc env.INIT_PROC_NR).alive = true ∧
    (s.mproc env.INIT_PROC_NR).mp_endpoint = env.INIT_PROC_NR.val
  endpoint : ∀ c, (s.flags c).IN_USE = true → (s.mproc c).mp_endpoint = env.INIT_PROC_NR.val →
    c = env.INIT_PROC_NR
  parent : ∀ c, (s.flags c).IN_USE = true → Present D s (s.mproc c).mp_parent
  tracer : ∀ c t, (s.flags c).IN_USE = true → (s.mproc c).mp_tracer = some t → Present D s t
  slot : ∀ c, (s.flags c).IN_USE = true → SlotOk env (s.mproc c) (s.vfs c)
  dying : ∀ c ∈ D, (s.flags c).IN_USE = true ∧ (s.flags c).EXITING = true ∧ s.vfs c ≠ none
  forking : ∀ c e pid, s.vfs c = some (.fork e pid) →
    (s.flags c).NEW_PARENT = true ∨ (s.mproc (s.mproc c).mp_parent).mp_endpoint = e
  settled : ∀ c, (s.flags c).IN_USE = true → c ∉ X → Settled s c

/-! ## Updates -/

section Updates

variable (s : Table n) (c d : Fin n) (f : Mproc n → Mproc n)

@[simp]
theorem modify_self : (s.modify c f).mproc c = f (s.mproc c) := by
  simp [Table.modify]

theorem modify_of_ne {c d : Fin n} (h : d ≠ c) : (s.modify c f).mproc d = s.mproc d := by
  simp [Table.modify, h]

@[simp]
theorem modify_procs : (s.modify c f).procs_in_use = s.procs_in_use :=
  rfl

@[simp]
theorem modify_vfs : (s.modify c f).vfs = s.vfs :=
  rfl

@[simp]
theorem modify_history : (s.modify c f).history = s.history :=
  rfl

@[simp]
theorem record_mproc (e : Event n) : (s.record e).mproc = s.mproc :=
  rfl

@[simp]
theorem record_procs (e : Event n) : (s.record e).procs_in_use = s.procs_in_use :=
  rfl

@[simp]
theorem record_vfs (e : Event n) : (s.record e).vfs = s.vfs :=
  rfl

@[simp]
theorem record_history (e : Event n) : (s.record e).history = s.history ++ [e] :=
  rfl

end Updates

theorem alive_iff {m : Mproc n} :
    m.alive = true ↔ m.mp_flags.IN_USE = true ∧ m.mp_flags.EXITING = false := by
  simp [Mproc.alive]

theorem not_alive_of_exiting {m : Mproc n} (h : m.mp_flags.EXITING = true) : m.alive = false := by
  simp [Mproc.alive, h]

theorem waitTest_mono {p p' c c' : Mproc n} (hw : p'.mp_flags.WAITING = true → p.mp_flags.WAITING = true)
    (hp : p'.mp_wpid = p.mp_wpid) (hpid : c'.mp_pid = c.mp_pid)
    (hgrp : c'.mp_procgrp = c.mp_procgrp) (h : waitTest p c = false) : waitTest p' c' = false := by
  unfold waitTest at h ⊢
  rw [hp, hpid, hgrp]
  cases hw' : p'.mp_flags.WAITING with
  | false => simp
  | true =>
      rw [hw hw'] at h
      exact h

theorem waitTest_of_not_waiting {p c : Mproc n} (h : p.mp_flags.WAITING = false) :
    waitTest p c = false := by
  simp [waitTest, h]

/-! ## Changes that do not matter -/

/-- The fields that the invariant reads are the same; a process may have been woken up. -/
structure SlotTweak (m m' : Mproc n) : Prop where
  flags : m'.mp_flags =
    { m.mp_flags with
      WAITING := m'.mp_flags.WAITING, ALARM_ON := m'.mp_flags.ALARM_ON
      PROC_STOPPED := m'.mp_flags.PROC_STOPPED, TRACE_STOPPED := m'.mp_flags.TRACE_STOPPED }
  waiting : m'.mp_flags.WAITING = true → m.mp_flags.WAITING = true
  parent : m'.mp_parent = m.mp_parent
  tracer : m'.mp_tracer = m.mp_tracer
  pid : m'.mp_pid = m.mp_pid
  procgrp : m'.mp_procgrp = m.mp_procgrp
  wpid : m'.mp_wpid = m.mp_wpid
  endpoint : m'.mp_endpoint = m.mp_endpoint
  scheduler : m'.mp_scheduler = m.mp_scheduler ∨ m'.mp_scheduler = none

structure Tweak (s s' : Table n) : Prop where
  slot : ∀ c, SlotTweak (s.mproc c) (s'.mproc c)
  procs : s'.procs_in_use = s.procs_in_use
  vfs : s'.vfs = s.vfs

theorem SlotTweak.refl (m : Mproc n) : SlotTweak m m := by
  constructor <;> simp

theorem Tweak.modify (s : Table n) (c : Fin n) {f : Mproc n → Mproc n}
    (h : SlotTweak (s.mproc c) (f (s.mproc c))) : Tweak s (s.modify c f) := by
  refine ⟨?_, rfl, rfl⟩
  intro d
  by_cases hd : d = c
  · subst hd
    simpa using h
  · rw [modify_of_ne s f hd]
    exact SlotTweak.refl _

theorem Tweak.record (s : Table n) (e : Event n) : Tweak s (s.record e) :=
  ⟨fun _ => SlotTweak.refl _, rfl, rfl⟩

section SlotTweak

variable {m m' : Mproc n}

theorem SlotTweak.in_use (h : SlotTweak m m') : m'.mp_flags.IN_USE = m.mp_flags.IN_USE := by
  rw [h.flags]

theorem SlotTweak.exiting (h : SlotTweak m m') : m'.mp_flags.EXITING = m.mp_flags.EXITING := by
  rw [h.flags]

theorem SlotTweak.alive (h : SlotTweak m m') : m'.alive = m.alive := by
  simp [Mproc.alive, h.in_use, h.exiting]

theorem SlotTweak.trans {m'' : Mproc n} (h : SlotTweak m m') (h' : SlotTweak m' m'') :
    SlotTweak m m'' where
  flags := by
    rw [h'.flags, h.flags]
  waiting := fun hw => h.waiting (h'.waiting hw)
  parent := h'.parent.trans h.parent
  tracer := h'.tracer.trans h.tracer
  pid := h'.pid.trans h.pid
  procgrp := h'.procgrp.trans h.procgrp
  wpid := h'.wpid.trans h.wpid
  endpoint := h'.endpoint.trans h.endpoint
  scheduler := by
    rcases h'.scheduler with heq | heq
    · rw [heq]
      exact h.scheduler
    · exact Or.inr heq

theorem SlotOk.tweak {env : Env n} {v : Option VfsCall} (hok : SlotOk env m v)
    (h : SlotTweak m m') : SlotOk env m' v := by
  have hf := h.flags
  constructor
  · rw [hf]
    exact hok.zombie
  · rw [hf]
    exact hok.trace_zombie
  · rw [hf]
    exact hok.told
  · intro hex
    rw [h.exiting] at hex
    have hno := hok.waiting hex
    cases hw : m'.mp_flags.WAITING with
    | false => rfl
    | true => simp [h.waiting hw] at hno
  · rw [hf]
    exact hok.vfs_call
  · rw [hf]
    exact hok.exit_call
  · rw [hf]
    exact hok.exiting
  · rw [hf]
    exact hok.dumpcore
  · rw [hf, h.tracer]
    exact hok.trace_exit
  · rw [hf]
    intro hpriv
    rcases h.scheduler with heq | heq
    · rw [heq]
      exact hok.scheduler hpriv
    · exact heq
  · rw [hf, h.endpoint]
    exact hok.server
  · rw [h.pid]
    exact hok.pid
  · rw [h.procgrp]
    exact hok.procgrp

end SlotTweak

theorem Tweak.trans {s s' s'' : Table n} (h : Tweak s s') (h' : Tweak s' s'') : Tweak s s'' :=
  ⟨fun c => (h.slot c).trans (h'.slot c), h'.procs.trans h.procs, h'.vfs.trans h.vfs⟩

theorem Settled.tweak {s s' : Table n} {c : Fin n} (hset : Settled s c) (h : Tweak s s') :
    Settled s' c := by
  have hc := h.slot c
  have hf : s'.flags c = _ := hc.flags
  constructor
  · rw [hf, h.vfs]
    exact hset.marked
  · rw [hf, h.vfs]
    exact hset.told
  · rw [hf, hc.tracer]
    exact hset.traced
  · intro hz
    rw [hf] at hz
    rw [hc.parent]
    exact waitTest_mono (h.slot _).waiting (h.slot _).wpid hc.pid hc.procgrp (hset.parent hz)
  · intro hz t ht
    rw [hf] at hz
    rw [hc.tracer] at ht
    exact waitTest_mono (h.slot t).waiting (h.slot t).wpid hc.pid hc.procgrp (hset.tracer hz t ht)

theorem Present.tweak {D : Set (Fin n)} {s s' : Table n} {p : Fin n} (hp : Present D s p)
    (h : Tweak s s') : Present D s' p := by
  refine ⟨hp.pos, ?_, ?_⟩
  · exact (h.slot p).in_use.trans hp.in_use
  · intro hex
    exact hp.exiting ((h.slot p).exiting.symm.trans hex)

theorem Inv.tweak {env : Env n} {D X : Set (Fin n)} {s s' : Table n} (hs : Inv env D X s)
    (h : Tweak s s') : Inv env D X s' := by
  have huse : ∀ c, (s'.flags c).IN_USE = (s.flags c).IN_USE := fun c => (h.slot c).in_use
  constructor
  · rw [h.procs, hs.count]
    simp only [Table.used, huse]
  · intro c hc
    have hf : s'.flags c = _ := (h.slot c).flags
    rw [h.vfs, hf]
    exact hs.free c ((huse c).symm.trans hc)
  · rw [(h.slot _).alive, (h.slot _).endpoint]
    exact hs.init
  · intro c hc he
    rw [huse] at hc
    rw [(h.slot c).endpoint] at he
    exact hs.endpoint c hc he
  · intro c hc
    rw [huse] at hc
    rw [(h.slot c).parent]
    exact (hs.parent c hc).tweak h
  · intro c t hc ht
    rw [huse] at hc
    rw [(h.slot c).tracer] at ht
    exact (hs.tracer c t hc ht).tweak h
  · intro c hc
    rw [huse] at hc
    rw [h.vfs]
    exact (hs.slot c hc).tweak (h.slot c)
  · intro c hc
    rw [huse, h.vfs]
    have hex : (s'.flags c).EXITING = (s.flags c).EXITING := (h.slot c).exiting
    rw [hex]
    exact hs.dying c hc
  · intro c e pid hv
    rw [h.vfs] at hv
    have hnew : (s'.flags c).NEW_PARENT = (s.flags c).NEW_PARENT := by
      have hf : s'.flags c = _ := (h.slot c).flags
      rw [hf]
    rw [hnew, (h.slot c).parent, (h.slot _).endpoint]
    exact hs.forking c e pid hv
  · intro c hc hx
    rw [huse] at hc
    exact (hs.settled c hc hx).tweak h

/-! ## What other files do -/

section Foreign

variable {s s' : Table n}

theorem Foreign.in_use (h : Foreign s s') (c : Fin n) :
    (s'.flags c).IN_USE = (s.flags c).IN_USE := by
  cases ha : (s.mproc c).alive with
  | false => rw [Table.flags, (h.kept c ha).1]
  | true => exact (h.slot c ha).in_use

theorem Foreign.exiting (h : Foreign s s') (c : Fin n) :
    (s'.flags c).EXITING = (s.flags c).EXITING := by
  cases ha : (s.mproc c).alive with
  | false => rw [Table.flags, (h.kept c ha).1]
  | true => exact (h.slot c ha).exiting

theorem Foreign.alive (h : Foreign s s') (c : Fin n) : (s'.mproc c).alive = (s.mproc c).alive := by
  have hu : (s'.mproc c).mp_flags.IN_USE = (s.mproc c).mp_flags.IN_USE := h.in_use c
  have he : (s'.mproc c).mp_flags.EXITING = (s.mproc c).mp_flags.EXITING := h.exiting c
  simp only [Mproc.alive, hu, he]

theorem Foreign.endpoint (h : Foreign s s') (c : Fin n) :
    (s'.mproc c).mp_endpoint = (s.mproc c).mp_endpoint := by
  cases ha : (s.mproc c).alive with
  | false => rw [(h.kept c ha).1]
  | true => exact (h.slot c ha).endpoint

theorem Foreign.parent (h : Foreign s s') (c : Fin n) :
    (s'.mproc c).mp_parent = (s.mproc c).mp_parent := by
  cases ha : (s.mproc c).alive with
  | false => rw [(h.kept c ha).1]
  | true => exact (h.slot c ha).parent

theorem Foreign.wpid (h : Foreign s s') (c : Fin n) :
    (s'.mproc c).mp_wpid = (s.mproc c).mp_wpid := by
  cases ha : (s.mproc c).alive with
  | false => rw [(h.kept c ha).1]
  | true => exact (h.slot c ha).wpid

theorem Foreign.waiting (h : Foreign s s') (c : Fin n) :
    (s'.mproc c).mp_flags.WAITING = true → (s.mproc c).mp_flags.WAITING = true := by
  cases ha : (s.mproc c).alive with
  | false =>
      rw [(h.kept c ha).1]
      exact id
  | true => exact (h.slot c ha).waiting

theorem Foreign.tracer (h : Foreign s s') {c t : Fin n} (ht : (s'.mproc c).mp_tracer = some t) :
    (s.mproc c).mp_tracer = some t ∨ t.val ≠ 0 ∧ (s.mproc t).alive = true := by
  cases ha : (s.mproc c).alive with
  | false =>
      rw [(h.kept c ha).1] at ht
      exact Or.inl ht
  | true => exact (h.slot c ha).tracer t ht

theorem Foreign.present (h : Foreign s s') {D : Set (Fin n)} {p : Fin n} (hp : Present D s p) :
    Present D s' p := by
  refine ⟨hp.pos, (h.in_use p).trans hp.in_use, ?_⟩
  intro hex
  exact hp.exiting ((h.exiting p).symm.trans hex)

/-- A slot that is alive before stays so, and nothing about an exit is recorded in it. -/
theorem SlotOk.foreign {env : Env n} {m m' : Mproc n} {v v' : Option VfsCall}
    (hok : SlotOk env m v) (hex : m.mp_flags.EXITING = false) (h : ForeignSlot s m m' v v') :
    SlotOk env m' v' := by
  have hex' : m'.mp_flags.EXITING = false := h.exiting.trans hex
  have hno : ∀ {b : Bool}, (b = true → m.mp_flags.EXITING = true) → b = false := by
    intro b hb
    cases b with
    | false => rfl
    | true => simp [hex] at hb
  have hz : m'.mp_flags.ZOMBIE = false := h.zombie.trans (hno fun hb => (hok.zombie hb).1)
  have ht : m'.mp_flags.TRACE_ZOMBIE = false :=
    h.trace_zombie.trans (hno fun hb => (hok.trace_zombie hb).1)
  have htold : m'.mp_flags.TOLD_PARENT = false := h.told_parent.trans (hno fun hb => hok.told hb)
  constructor
  · simp [hz]
  · simp [ht]
  · simp [htold]
  · simp [hex']
  · rcases h.vfs with ⟨hv, hcall⟩ | ⟨-, hv, hcall⟩
    · rw [hv, hcall]
      exact hok.vfs_call
    · simp [hv, hcall]
  · rcases h.vfs with ⟨hv, -⟩ | ⟨-, hv, -⟩
    · rw [hv, h.exiting]
      exact hok.exit_call
    · simp [hv]
  · simp [hex']
  · intro _
    exact ⟨hz, ht, htold⟩
  · exact h.trace_exit hok.trace_exit
  · intro hpriv
    rw [h.priv_proc] at hpriv
    rw [h.scheduler hpriv]
    exact hok.scheduler hpriv
  · rw [h.endpoint, h.priv_proc]
    exact hok.server
  · rw [h.pid]
    exact hok.pid
  · exact h.procgrp hok.procgrp

/-- Nothing is pending for a process that is not exiting. -/
theorem SlotOk.settled {env : Env n} {c : Fin n} (hok : SlotOk env (s.mproc c) (s.vfs c))
    (hex : (s.flags c).EXITING = false) : Settled s c := by
  constructor
  · simp [hex]
  · intro htold
    have hbad : (s.flags c).EXITING = true := hok.told htold
    simp [hex] at hbad
  · intro hz
    have hbad : (s.flags c).EXITING = true := (hok.trace_zombie hz).1
    simp [hex] at hbad
  · intro hz
    have hbad : (s.flags c).EXITING = true := (hok.zombie hz).1
    simp [hex] at hbad
  · intro hz
    have hbad : (s.flags c).EXITING = true := (hok.trace_zombie hz).1
    simp [hex] at hbad

theorem Inv.foreign {env : Env n} {D X : Set (Fin n)} (hs : Inv env D X s) (h : Foreign s s') :
    Inv env D X s' := by
  constructor
  · rw [h.procs_in_use, hs.count]
    simp only [Table.used, h.in_use]
  · intro c hc
    rw [h.in_use] at hc
    have ha : (s.mproc c).alive = false := by
      simp [Mproc.alive, hc]
    rw [Table.flags, (h.kept c ha).1, (h.kept c ha).2]
    exact hs.free c hc
  · rw [h.alive, h.endpoint]
    exact hs.init
  · intro c hc he
    rw [h.in_use] at hc
    rw [h.endpoint] at he
    exact hs.endpoint c hc he
  · intro c hc
    rw [h.in_use] at hc
    rw [h.parent]
    exact h.present (hs.parent c hc)
  · intro c t hc ht
    rw [h.in_use] at hc
    rcases h.tracer ht with hold | ⟨hpos, ha⟩
    · exact h.present (hs.tracer c t hc hold)
    · rcases alive_iff.1 ha with ⟨hu, hex⟩
      refine h.present ⟨hpos, hu, ?_⟩
      intro hbad
      simp [hex] at hbad
  · intro c hc
    rw [h.in_use] at hc
    cases ha : (s.mproc c).alive with
    | false =>
        rw [(h.kept c ha).1, (h.kept c ha).2]
        exact hs.slot c hc
    | true => exact (hs.slot c hc).foreign (alive_iff.1 ha).2 (h.slot c ha)
  · intro c hc
    rcases hs.dying c hc with ⟨hu, hex, hv⟩
    rw [h.in_use, h.exiting, (h.kept c (not_alive_of_exiting hex)).2]
    exact ⟨hu, hex, hv⟩
  · intro c e pid hv
    rw [h.parent, h.endpoint]
    cases ha : (s.mproc c).alive with
    | false =>
        rw [(h.kept c ha).2] at hv
        rw [Table.flags, (h.kept c ha).1]
        exact hs.forking c e pid hv
    | true =>
        have hold : s.vfs c = some (.fork e pid) := by
          rcases (h.slot c ha).vfs with ⟨heq, -⟩ | ⟨-, heq, -⟩
          · rw [← heq]
            exact hv
          · rw [heq] at hv
            simp at hv
        have hnew : (s'.flags c).NEW_PARENT = (s.flags c).NEW_PARENT := (h.slot c ha).new_parent
        rw [hnew]
        exact hs.forking c e pid hold
  · intro c hc hx
    rw [h.in_use] at hc
    have hset := hs.settled c hc hx
    cases hex : (s.flags c).EXITING with
    | true =>
        -- The slot of the exiting process is untouched, the others are no more awake than before.
        have hk := h.kept c (not_alive_of_exiting hex)
        constructor
        · rw [Table.flags, hk.1, hk.2]
          exact hset.marked
        · rw [Table.flags, hk.1, hk.2]
          exact hset.told
        · rw [Table.flags, hk.1]
          exact hset.traced
        · rw [Table.flags, hk.1]
          intro hz
          exact waitTest_mono (h.waiting _) (h.wpid _) rfl rfl (hset.parent hz)
        · rw [Table.flags, hk.1]
          intro hz t ht
          exact waitTest_mono (h.waiting t) (h.wpid t) rfl rfl (hset.tracer hz t ht)
    | false =>
        have hok := (hs.slot c hc).foreign hex (h.slot c (alive_iff.2 ⟨hc, hex⟩))
        exact hok.settled ((h.exiting c).trans hex)

end Foreign

/-! ## Changes of one slot -/

/-- Only the slot `c` changes, and it stays in use. -/
structure Update (s s' : Table n) (c : Fin n) : Prop where
  procs : s'.procs_in_use = s.procs_in_use
  mproc : ∀ d, d ≠ c → s'.mproc d = s.mproc d
  vfs : ∀ d, d ≠ c → s'.vfs d = s.vfs d
  before : (s.flags c).IN_USE = true
  after : (s'.flags c).IN_USE = true
  endpoint : (s'.mproc c).mp_endpoint = (s.mproc c).mp_endpoint

/-- The process of that slot does not begin to wait. -/
structure Change (s s' : Table n) (c : Fin n) : Prop extends Update s s' c where
  waiting : (s'.flags c).WAITING = true → (s.flags c).WAITING = true
  wpid : (s'.mproc c).mp_wpid = (s.mproc c).mp_wpid

section Change

variable {s s' : Table n} {c : Fin n}

theorem Update.in_use (h : Update s s' c) (d : Fin n) :
    (s'.flags d).IN_USE = (s.flags d).IN_USE := by
  by_cases hd : d = c
  · rw [hd, h.before, h.after]
  · rw [Table.flags, h.mproc d hd]

theorem Update.endpoint_eq (h : Update s s' c) (d : Fin n) :
    (s'.mproc d).mp_endpoint = (s.mproc d).mp_endpoint := by
  by_cases hd : d = c
  · rw [hd]
    exact h.endpoint
  · rw [h.mproc d hd]

theorem Change.waiting_of (h : Change s s' c) (d : Fin n) :
    (s'.mproc d).mp_flags.WAITING = true → (s.mproc d).mp_flags.WAITING = true := by
  by_cases hd : d = c
  · rw [hd]
    exact h.waiting
  · rw [h.mproc d hd]
    exact id

theorem Change.wpid_eq (h : Change s s' c) (d : Fin n) :
    (s'.mproc d).mp_wpid = (s.mproc d).mp_wpid := by
  by_cases hd : d = c
  · rw [hd]
    exact h.wpid
  · rw [h.mproc d hd]

theorem Settled.change {d : Fin n} (hset : Settled s d) (h : Change s s' c) (hd : d ≠ c) :
    Settled s' d := by
  constructor
  · rw [Table.flags, h.mproc d hd, h.vfs d hd]
    exact hset.marked
  · rw [Table.flags, h.mproc d hd, h.vfs d hd]
    exact hset.told
  · rw [Table.flags, h.mproc d hd]
    exact hset.traced
  · rw [Table.flags, h.mproc d hd]
    intro hz
    exact waitTest_mono (h.waiting_of _) (h.wpid_eq _) rfl rfl (hset.parent hz)
  · rw [Table.flags, h.mproc d hd]
    intro hz t ht
    exact waitTest_mono (h.waiting_of t) (h.wpid_eq t) rfl rfl (hset.tracer hz t ht)

/-- What has to be shown when one slot changes.  The sets may change by that slot. -/
theorem Inv.update {env : Env n} {D D' X X' : Set (Fin n)} (hs : Inv env D X s)
    (h : Update s s' c) (hD : ∀ d, d ≠ c → (d ∈ D' ↔ d ∈ D))
    (hinit : c = env.INIT_PROC_NR → (s'.flags c).EXITING = false)
    (hexit : (s'.flags c).EXITING = true → (s.flags c).EXITING = true ∧ (c ∈ D → c ∈ D') ∨ c ∈ D')
    (hparent : (s'.mproc c).mp_parent = (s.mproc c).mp_parent ∨
      (s'.mproc c).mp_parent = env.INIT_PROC_NR)
    (htracer : ∀ t, (s'.mproc c).mp_tracer = some t → (s.mproc c).mp_tracer = some t)
    (hslot : SlotOk env (s'.mproc c) (s'.vfs c))
    (hdying : c ∈ D' → (s'.flags c).EXITING = true ∧ s'.vfs c ≠ none)
    (hfork : ∀ e pid, s'.vfs c = some (.fork e pid) →
      (s'.flags c).NEW_PARENT = true ∨ (s.mproc (s'.mproc c).mp_parent).mp_endpoint = e)
    (hset : ∀ d, (s.flags d).IN_USE = true → d ∉ X' → Settled s' d) : Inv env D' X' s' := by
  have hpresent : ∀ p, Present D s p → Present D' s' p := by
    intro p hp
    refine ⟨hp.pos, (h.in_use p).trans hp.in_use, ?_⟩
    intro hex
    by_cases hpc : p = c
    · subst hpc
      rcases hexit hex with ⟨hbefore, hkeep⟩ | hin
      · exact hkeep (hp.exiting hbefore)
      · exact hin
    · rw [Table.flags, h.mproc p hpc] at hex
      exact (hD p hpc).2 (hp.exiting hex)
  have hinitPresent : Present D s env.INIT_PROC_NR := by
    rcases alive_iff.1 hs.init.1 with ⟨hu, hex⟩
    refine ⟨env.init_pos, hu, ?_⟩
    intro hbad
    simp [hex] at hbad
  constructor
  · rw [h.procs, hs.count]
    simp only [Table.used, h.in_use]
  · intro d hd
    have hdc : d ≠ c := by
      rintro rfl
      simp [h.after] at hd
    rw [h.in_use] at hd
    rw [h.vfs d hdc, Table.flags, h.mproc d hdc]
    exact hs.free d hd
  · refine ⟨?_, (h.endpoint_eq _).trans hs.init.2⟩
    by_cases hc : env.INIT_PROC_NR = c
    · exact alive_iff.2 ⟨hc ▸ h.after, hc ▸ hinit hc.symm⟩
    · rw [h.mproc _ hc]
      exact hs.init.1
  · intro d hd he
    rw [h.in_use] at hd
    rw [h.endpoint_eq] at he
    exact hs.endpoint d hd he
  · intro d hd
    rw [h.in_use] at hd
    by_cases hdc : d = c
    · subst hdc
      rcases hparent with heq | heq
      · rw [heq]
        exact hpresent _ (hs.parent d hd)
      · rw [heq]
        exact hpresent _ hinitPresent
    · rw [h.mproc d hdc]
      exact hpresent _ (hs.parent d hd)
  · intro d t hd ht
    rw [h.in_use] at hd
    by_cases hdc : d = c
    · subst hdc
      exact hpresent t (hs.tracer d t hd (htracer t ht))
    · rw [h.mproc d hdc] at ht
      exact hpresent t (hs.tracer d t hd ht)
  · intro d hd
    rw [h.in_use] at hd
    by_cases hdc : d = c
    · rw [hdc]
      exact hslot
    · rw [h.mproc d hdc, h.vfs d hdc]
      exact hs.slot d hd
  · intro d hd
    by_cases hdc : d = c
    · subst hdc
      exact ⟨h.after, hdying hd⟩
    · rw [Table.flags, h.mproc d hdc, h.vfs d hdc]
      exact hs.dying d ((hD d hdc).1 hd)
  · intro d e pid hv
    rw [h.endpoint_eq]
    by_cases hdc : d = c
    · subst hdc
      exact hfork e pid hv
    · rw [h.vfs d hdc] at hv
      rw [Table.flags, h.mproc d hdc]
      exact hs.forking d e pid hv
  · intro d hd hx
    rw [h.in_use] at hd
    exact hset d hd hx

theorem Inv.change {env : Env n} {D D' X X' : Set (Fin n)} (hs : Inv env D X s)
    (h : Change s s' c) (hD : ∀ d, d ≠ c → (d ∈ D' ↔ d ∈ D)) (hX : ∀ d, d ≠ c → d ∈ X → d ∈ X')
    (hinit : c = env.INIT_PROC_NR → (s'.flags c).EXITING = false)
    (hexit : (s'.flags c).EXITING = true → (s.flags c).EXITING = true ∧ (c ∈ D → c ∈ D') ∨ c ∈ D')
    (hparent : (s'.mproc c).mp_parent = (s.mproc c).mp_parent ∨
      (s'.mproc c).mp_parent = env.INIT_PROC_NR)
    (htracer : ∀ t, (s'.mproc c).mp_tracer = some t → (s.mproc c).mp_tracer = some t)
    (hslot : SlotOk env (s'.mproc c) (s'.vfs c))
    (hdying : c ∈ D' → (s'.flags c).EXITING = true ∧ s'.vfs c ≠ none)
    (hfork : ∀ e pid, s'.vfs c = some (.fork e pid) →
      (s'.flags c).NEW_PARENT = true ∨ (s.mproc (s'.mproc c).mp_parent).mp_endpoint = e)
    (hset : c ∉ X' → Settled s' c) : Inv env D' X' s' := by
  refine hs.update h.toUpdate hD hinit hexit hparent htracer hslot hdying hfork ?_
  intro d hd hx
  by_cases hdc : d = c
  · subst hdc
    exact hset hx
  · exact (hs.settled d hd fun hin => hx (hX d hdc hin)).change h hdc

end Change

end Pm
end OsLab
