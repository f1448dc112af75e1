import OsLab.Pm.Calls

/-!
# Lifecycle — every slot goes through its life in order

`Life` is the life of a slot as a parent sees it: a child is created, exits, is reported once and leaves
the table.  The events of every slot, in every run, are accepted by this automaton: no exit is reported
twice, none is reported under another pid or with another status, none to a process that is not the
parent or INIT, and no slot is used again before the report.
-/

namespace OsLab
namespace Pm

open OsLab.Lib

variable {n : Nat}

/-! ## The automaton -/

inductive Life (n : Nat)
  | free
  | alive (parent : Fin n) (pid : Int)
  /-- `traced` is set once the tracer has been told. -/
  | exiting (parent : Fin n) (pid status : Int) (traced : Bool)
  | told
  deriving DecidableEq

/-- The slot that an event is about. -/
def Event.subject : Event n → Option (Fin n)
  | .forks _ child _ => some child
  | .exits c _ _ => some c
  | .tells _ child _ _ => some child
  | .traces _ child _ _ => some child
  | .frees c => some c
  | _ => none

def Life.next (init : Fin n) : Life n → Event n → Option (Life n)
  | .free, .forks parent _ pid => some (.alive parent pid)
  | .alive parent pid, .exits _ pid' status =>
    if pid' = pid then some (.exiting parent pid status false) else none
  | .exiting parent pid status traced, .traces _ _ pid' code =>
    if pid' = pid ∧ code.status = status.bmod 256 ∧ traced = false then
      some (.exiting parent pid status true)
    else none
  | .exiting parent pid status _, .tells parent' _ pid' code =>
    if pid' = pid ∧ code.status = status.bmod 256 ∧ (parent' = parent ∨ parent' = init) then some .told
    else none
  | .told, .frees _ => some .free
  | _, _ => none

/-- The life of the slot `c` after these events. -/
def lifeOf (init : Fin n) (start : Life n) (c : Fin n) (history : List (Event n)) :
    Option (Life n) :=
  (history.filter fun e => e.subject = some c).foldlM (Life.next init) start

/-- The life that a slot shows in the table. -/
def Agrees (init : Fin n) (m : Mproc n) : Life n → Prop
  | .free =>
    m.mp_flags.IN_USE = false ∧ m.mp_flags.ZOMBIE = false ∧ m.mp_flags.TRACE_ZOMBIE = false ∧
      m.mp_flags.TOLD_PARENT = false
  | .alive parent pid =>
    m.mp_flags.IN_USE = true ∧ m.mp_flags.EXITING = false ∧ m.mp_flags.ZOMBIE = false ∧
      m.mp_flags.TRACE_ZOMBIE = false ∧ m.mp_flags.TOLD_PARENT = false ∧ m.mp_pid = pid ∧
      (m.mp_parent = parent ∨ m.mp_parent = init)
  | .exiting parent pid status traced =>
    m.mp_flags.IN_USE = true ∧ m.mp_flags.EXITING = true ∧ m.mp_flags.TOLD_PARENT = false ∧
      m.mp_pid = pid ∧ (m.mp_parent = parent ∨ m.mp_parent = init) ∧
      m.mp_exitstatus = status.bmod 256 ∧ (traced = true → m.mp_flags.ZOMBIE = true) ∧
      (m.mp_flags.ZOMBIE = true → m.mp_flags.TRACE_ZOMBIE = false)
  | .told =>
    m.mp_flags.IN_USE = true ∧ m.mp_flags.EXITING = true ∧ m.mp_flags.ZOMBIE = false ∧
      m.mp_flags.TRACE_ZOMBIE = false ∧ m.mp_flags.TOLD_PARENT = true

/-- The history explains the table. -/
def Tracks (init : Fin n) (start : Fin n → Life n) (s : Table n) : Prop :=
  ∀ c, ∃ life, lifeOf init (start c) c s.history = some life ∧ Agrees init (s.mproc c) life

section Steps

variable {init : Fin n} {start : Fin n → Life n} {s s' : Table n} {c : Fin n}

/-- Nothing that a life depends on changes. -/
def LifeKept (init : Fin n) (m m' : Mproc n) : Prop :=
  m'.mp_flags.IN_USE = m.mp_flags.IN_USE ∧ m'.mp_flags.EXITING = m.mp_flags.EXITING ∧
    m'.mp_flags.ZOMBIE = m.mp_flags.ZOMBIE ∧ m'.mp_flags.TRACE_ZOMBIE = m.mp_flags.TRACE_ZOMBIE ∧
    m'.mp_flags.TOLD_PARENT = m.mp_flags.TOLD_PARENT ∧ m'.mp_pid = m.mp_pid ∧
    (m'.mp_parent = m.mp_parent ∨ m'.mp_parent = init) ∧
    (m.mp_flags.EXITING = true → m'.mp_exitstatus = m.mp_exitstatus)

theorem LifeKept.refl (m : Mproc n) : LifeKept init m m :=
  ⟨rfl, rfl, rfl, rfl, rfl, rfl, Or.inl rfl, fun _ => rfl⟩

theorem Agrees.kept {m m' : Mproc n} {life : Life n} (h : Agrees init m life)
    (hk : LifeKept init m m') : Agrees init m' life := by
  rcases hk with ⟨hu, hex, hz, htz, htold, hpid, hparent, hstatus⟩
  have hpar : ∀ p, m.mp_parent = p ∨ m.mp_parent = init → m'.mp_parent = p ∨ m'.mp_parent = init := by
    intro p hp
    rcases hparent with heq | heq
    · rw [heq]
      exact hp
    · exact Or.inr heq
  cases life with
  | free => exact ⟨hu.trans h.1, hz.trans h.2.1, htz.trans h.2.2.1, htold.trans h.2.2.2⟩
  | alive parent pid =>
      rcases h with ⟨h₁, h₂, h₃, h₄, h₅, h₆, h₇⟩
      exact ⟨hu.trans h₁, hex.trans h₂, hz.trans h₃, htz.trans h₄, htold.trans h₅, hpid.trans h₆,
        hpar parent h₇⟩
  | exiting parent pid status traced =>
      rcases h with ⟨h₁, h₂, h₃, h₄, h₅, h₆, h₇, h₈⟩
      exact ⟨hu.trans h₁, hex.trans h₂, htold.trans h₃, hpid.trans h₄, hpar parent h₅,
        (hstatus h₂).trans h₆, fun ht => hz.trans (h₇ ht),
        fun hz' => htz.trans (h₈ (hz.symm.trans hz'))⟩
  | told =>
      rcases h with ⟨h₁, h₂, h₃, h₄, h₅⟩
      exact ⟨hu.trans h₁, hex.trans h₂, hz.trans h₃, htz.trans h₄, htold.trans h₅⟩

theorem lifeOf_append (start : Life n) (c : Fin n) (history : List (Event n)) (e : Event n) :
    lifeOf init start c (history ++ [e]) =
      if e.subject = some c then (lifeOf init start c history).bind fun life => life.next init e
      else lifeOf init start c history := by
  unfold lifeOf
  rw [foldlM_filter_concat]
  simp only [decide_eq_true_eq]

/-- Changes that concern no life. -/
theorem Tracks.quiet (h : Tracks init start s) (hhist : s'.history = s.history)
    (hk : ∀ c, LifeKept init (s.mproc c) (s'.mproc c)) : Tracks init start s' := by
  intro c
  rcases h c with ⟨life, hlife, hagrees⟩
  exact ⟨life, by rw [hhist]; exact hlife, hagrees.kept (hk c)⟩

theorem Tracks.record (h : Tracks init start s) {e : Event n} (he : e.subject = none) :
    Tracks init start (s.record e) := by
  intro c
  rcases h c with ⟨life, hlife, hagrees⟩
  refine ⟨life, ?_, hagrees⟩
  rw [record_history, lifeOf_append, he]
  simpa using hlife

/-- An event of the slot `c`. -/
theorem Tracks.event (h : Tracks init start s) {e : Event n} (hhist : s'.history = s.history ++ [e])
    (he : e.subject = some c) (hother : ∀ d, d ≠ c → LifeKept init (s.mproc d) (s'.mproc d))
    (hc : ∀ life, Agrees init (s.mproc c) life →
      ∃ life', life.next init e = some life' ∧ Agrees init (s'.mproc c) life') :
    Tracks init start s' := by
  intro d
  rcases h d with ⟨life, hlife, hagrees⟩
  rw [hhist, lifeOf_append, he]
  by_cases hd : d = c
  · subst hd
    rcases hc life hagrees with ⟨life', hnext, hagrees'⟩
    refine ⟨life', ?_, hagrees'⟩
    rw [if_pos rfl, hlife]
    exact hnext
  · have hne : ¬ (some c = some d) := fun heq => hd (Option.some.inj heq).symm
    rw [if_neg hne]
    exact ⟨life, hlife, hagrees.kept (hother d hd)⟩

theorem Tracks.modify (h : Tracks init start s) (c : Fin n) {f : Mproc n → Mproc n}
    (hf : LifeKept init (s.mproc c) (f (s.mproc c))) : Tracks init start (s.modify c f) := by
  refine h.quiet rfl ?_
  intro d
  by_cases hd : d = c
  · subst hd
    rw [modify_self]
    exact hf
  · rw [modify_of_ne s f hd]
    exact LifeKept.refl _

/-- Between the exit and the report the bits of a zombie may change. -/
theorem Tracks.bits (h : Tracks init start s) {f : Flags → Flags}
    (hu : (s.flags c).IN_USE = true) (hex : (s.flags c).EXITING = true)
    (htold : (s.flags c).TOLD_PARENT = false) (hu' : (f (s.flags c)).IN_USE = true)
    (hex' : (f (s.flags c)).EXITING = true) (htold' : (f (s.flags c)).TOLD_PARENT = false)
    (hz : (s.flags c).ZOMBIE = true → (f (s.flags c)).ZOMBIE = true)
    (htz : (f (s.flags c)).ZOMBIE = true → (f (s.flags c)).TRACE_ZOMBIE = false) :
    Tracks init start (s.setFlags c f) := by
  intro d
  rcases h d with ⟨life, hlife, hagrees⟩
  by_cases hd : d = c
  · subst hd
    refine ⟨life, hlife, ?_⟩
    have hself : (s.setFlags d f).mproc d = { s.mproc d with mp_flags := f (s.flags d) } := by
      simp [Table.setFlags]
    rw [hself]
    rw [Table.flags] at hex htold hu
    cases life with
    | free => simp [Agrees, hu] at hagrees
    | alive parent pid => simp [Agrees, hex] at hagrees
    | told => simp [Agrees, htold] at hagrees
    | exiting parent pid status traced =>
        rcases hagrees with ⟨-, -, -, hpid, hparent, hstatus, htraced, -⟩
        exact ⟨hu', hex', htold', hpid, hparent, hstatus, fun ht => hz (htraced ht), htz⟩
  · have hsame : (s.setFlags c f).mproc d = s.mproc d := modify_of_ne s _ hd
    rw [hsame]
    exact ⟨life, hlife, hagrees⟩

end Steps

/-! ## The functions -/

section Functions

variable {env : Env n} {start : Fin n → Life n} {s s' : Table n} {c : Fin n}

theorem Foreign.lifeKept (h : Foreign s s') (c : Fin n) :
    LifeKept env.INIT_PROC_NR (s.mproc c) (s'.mproc c) := by
  cases ha : (s.mproc c).alive with
  | false =>
      rw [(h.kept c ha).1]
      exact LifeKept.refl _
  | true =>
      have hslot := h.slot c ha
      refine ⟨hslot.in_use, hslot.exiting, hslot.zombie, hslot.trace_zombie, hslot.told_parent,
        hslot.pid, Or.inl hslot.parent, ?_⟩
      intro hex
      rw [not_alive_of_exiting hex] at ha
      simp at ha

theorem notify_tracks {sig : Signal} (h : Tracks env.INIT_PROC_NR start s)
    (hn : notify env s c sig = some s') : Tracks env.INIT_PROC_NR start s' := by
  unfold notify at hn
  cases ha : (s.mproc c).alive with
  | false => simp [ha] at hn
  | true =>
      simp only [ha, if_true, Option.some.injEq] at hn
      subst hn
      have hfor := env.notice_foreign s c sig ha
      exact h.quiet hfor.history hfor.lifeKept

theorem cleanup_tracks (h : Tracks env.INIT_PROC_NR start s)
    (htold : (s.flags c).TOLD_PARENT = true) : Tracks env.INIT_PROC_NR start (cleanup s c) := by
  refine h.event rfl rfl ?_ ?_
  · intro d hd
    rw [cleanup_of_ne hd]
    exact LifeKept.refl _
  · intro life hagrees
    rw [Table.flags] at htold
    cases life with
    | free => simp [Agrees, htold] at hagrees
    | alive parent pid => simp [Agrees, htold] at hagrees
    | exiting parent pid status traced => simp [Agrees, htold] at hagrees
    | told => exact ⟨.free, rfl, by simp [Agrees, cleanup]⟩

/-- Only a process whose exit is not reported is a zombie. -/
theorem exiting_of_zombie {m : Mproc n} {life : Life n} (h : Agrees env.INIT_PROC_NR m life)
    (hz : m.mp_flags.ZOMBIE = true ∨ m.mp_flags.TRACE_ZOMBIE = true) :
    ∃ parent pid status traced, life = .exiting parent pid status traced := by
  cases life with
  | free => rcases hz with hz | hz <;> simp [Agrees, hz] at h
  | alive parent pid => rcases hz with hz | hz <;> simp [Agrees, hz] at h
  | told => rcases hz with hz | hz <;> simp [Agrees, hz] at h
  | exiting parent pid status traced => exact ⟨parent, pid, status, traced, rfl⟩

/-- A process is woken up; no life changes. -/
def wake (s : Table n) (p : Fin n) : Table n :=
  s.setFlags p fun f => { f with WAITING := false }

theorem wake_kept (init : Fin n) (s : Table n) (p d : Fin n) :
    LifeKept init (s.mproc d) ((wake s p).mproc d) := by
  by_cases hd : d = p
  · subst hd
    simp [wake, Table.setFlags, LifeKept]
  · rw [wake, Table.setFlags, modify_of_ne s _ hd]
    exact LifeKept.refl _

theorem tellParent_tracks (h : Tracks env.INIT_PROC_NR start s) (ht : tellParent s c = some s') :
    Tracks env.INIT_PROC_NR start s' ∧ (s'.flags c).TOLD_PARENT = true := by
  unfold tellParent at ht
  dsimp only at ht
  by_cases hpos : (s.mproc c).mp_parent.val = 0
  · simp [hpos] at ht
  · cases hz : (s.mproc c).mp_flags.ZOMBIE with
    | false => simp [hpos, hz] at ht
    | true =>
        cases htold : (s.mproc c).mp_flags.TOLD_PARENT with
        | true => simp [hpos, hz, htold] at ht
        | false =>
            simp only [hpos, hz, htold, Bool.not_true, Bool.false_eq_true, if_false,
              Option.some.injEq] at ht
            have hwake := wake_kept env.INIT_PROC_NR s (s.mproc c).mp_parent
            have hother : ∀ d, d ≠ c → s'.mproc d = (wake s (s.mproc c).mp_parent).mproc d := by
              intro d hd
              rw [← ht]
              exact modify_of_ne _ _ hd
            have hself : s'.mproc c = { (wake s (s.mproc c).mp_parent).mproc c with
                mp_flags := { (wake s (s.mproc c).mp_parent).flags c with
                  ZOMBIE := false, TOLD_PARENT := true } } := by
              rw [← ht]
              exact modify_self _ _ _
            refine ⟨h.event (by rw [← ht]; rfl) rfl ?_ ?_, by rw [Table.flags, hself]⟩
            · intro d hd
              rw [hother d hd]
              exact hwake d
            · intro life hagrees
              rcases exiting_of_zombie hagrees (Or.inl hz) with ⟨parent, pid, status, traced, rfl⟩
              rcases hagrees.kept (hwake c) with ⟨hu, hex, -, -, -, -, -, hboth⟩
              rcases hagrees with ⟨-, -, -, hpid, hparent, hstatus, -, -⟩
              refine ⟨.told, ?_, ?_⟩
              · simp [Life.next, hpid, hstatus, hparent]
              · rw [hself]
                exact ⟨hu, hex, rfl, hboth ((hwake c).2.2.1.trans hz), rfl⟩

theorem tellTracer_tracks (h : Tracks env.INIT_PROC_NR start s) (ht : tellTracer s c = some s') :
    Tracks env.INIT_PROC_NR start s' := by
  unfold tellTracer at ht
  dsimp only at ht
  cases htracer : (s.mproc c).mp_tracer with
  | none => simp [htracer] at ht
  | some t =>
      rw [htracer] at ht
      dsimp only at ht
      by_cases hpos : t.val = 0
      · simp [hpos] at ht
      · cases htz : (s.mproc c).mp_flags.TRACE_ZOMBIE with
        | false => simp [hpos, htz] at ht
        | true =>
            simp only [hpos, htz, Bool.not_true, Bool.false_eq_true, if_false,
              Option.some.injEq] at ht
            have hwake := wake_kept env.INIT_PROC_NR s t
            have hother : ∀ d, d ≠ c → s'.mproc d = (wake s t).mproc d := by
              intro d hd
              rw [← ht]
              exact modify_of_ne _ _ hd
            have hself : s'.mproc c = { (wake s t).mproc c with
                mp_flags := { (wake s t).flags c with TRACE_ZOMBIE := false, ZOMBIE := true } } := by
              rw [← ht]
              exact modify_self _ _ _
            refine h.event (by rw [← ht]; rfl) rfl ?_ ?_
            · intro d hd
              rw [hother d hd]
              exact hwake d
            · intro life hagrees
              rcases exiting_of_zombie hagrees (Or.inr htz) with ⟨parent, pid, status, traced, rfl⟩
              rcases hagrees.kept (hwake c) with ⟨hu, hex, htold, hpid', hparent', hstatus', -, -⟩
              rcases hagrees with ⟨-, -, -, hpid, hparent, hstatus, htraced, hboth⟩
              -- A tracer that had been told already would leave no trace zombie.
              have hfirst : traced = false := by
                cases htr : traced with
                | false => rfl
                | true =>
                    have hno := hboth (htraced htr)
                    simp [htz] at hno
              refine ⟨.exiting parent pid status true, ?_, ?_⟩
              · simp [Life.next, hpid, hstatus, hfirst]
              · rw [hself]
                exact ⟨hu, hex, htold, hpid', hparent', hstatus', fun _ => rfl, fun _ => rfl⟩

theorem checkParent_tracks {tryCleanup : Bool} (h : Tracks env.INIT_PROC_NR start s)
    (hc : checkParent env s c tryCleanup = some s') : Tracks env.INIT_PROC_NR start s' := by
  unfold checkParent at hc
  dsimp only at hc
  split at hc
  · cases hc
    exact h
  · split at hc
    · rcases Option.map_eq_some_iff.1 hc with ⟨s₁, htell, hs'⟩
      rcases tellParent_tracks h htell with ⟨h₁, htold⟩
      subst hs'
      split
      · exact cleanup_tracks h₁ htold
      · exact h₁
    · exact notify_tracks h hc

theorem zombify_tracks (h : Tracks env.INIT_PROC_NR start s) (hu : (s.flags c).IN_USE = true)
    (hex : (s.flags c).EXITING = true) (htold : (s.flags c).TOLD_PARENT = false)
    (hz : zombify env s c = some s') : Tracks env.INIT_PROC_NR start s' := by
  unfold zombify at hz
  dsimp only at hz
  cases hbits : (s.mproc c).mp_flags.TRACE_ZOMBIE || (s.mproc c).mp_flags.ZOMBIE with
  | true => simp [hbits] at hz
  | false =>
      rw [Bool.or_eq_false_iff] at hbits
      have htz : (s.flags c).TRACE_ZOMBIE = false := hbits.1
      have hzom : (s.flags c).ZOMBIE = false := hbits.2
      have hzombie : Tracks env.INIT_PROC_NR start (s.setFlags c fun f => { f with ZOMBIE := true }) :=
        h.bits hu hex htold hu hex htold (fun _ => rfl) (fun _ => htz)
      have htraced : Tracks env.INIT_PROC_NR start
          (s.setFlags c fun f => { f with TRACE_ZOMBIE := true }) :=
        h.bits hu hex htold hu hex htold (fun hb => by simp [hzom] at hb)
          (fun hb => by simp [hzom] at hb)
      simp only [hbits.1, hbits.2, Bool.or_self, Bool.false_eq_true, if_false] at hz
      cases htracer : (s.mproc c).mp_tracer with
      | none =>
          rw [htracer] at hz
          exact checkParent_tracks hzombie hz
      | some t =>
          rw [htracer] at hz
          dsimp only at hz
          split at hz
          · exact checkParent_tracks hzombie hz
          · split at hz
            · cases hz
              exact htraced
            · rcases Option.bind_eq_some_iff.1 hz with ⟨s₁, htell, hcheck⟩
              exact checkParent_tracks (tellTracer_tracks htraced htell) hcheck

/-- What the callers of `exit_proc` know. -/
def ExitTracks (env : Env n) (start : Fin n → Life n) (exit : Table n → Fin n → Option (Table n)) :
    Prop :=
  ∀ (s s' : Table n) (c : Fin n), Tracks env.INIT_PROC_NR start s → (s.mproc c).alive = true →
    exit s c = some s' → Tracks env.INIT_PROC_NR start s'

theorem sigProc_tracks {exit : Table n → Fin n → Option (Table n)} {sig : Signal}
    (hexit : ExitTracks env start exit) (h : Tracks env.INIT_PROC_NR start s)
    (hsig : sigProc env exit s c sig = some s') : Tracks env.INIT_PROC_NR start s' := by
  unfold sigProc at hsig
  split at hsig
  · rename_i hfatal
    rw [Bool.and_eq_true] at hfatal
    refine hexit _ s' c (h.modify c ?_) ?_ hsig
    · simp [LifeKept]
    · simpa [Mproc.alive] using hfatal.1
  · exact notify_tracks h hsig

theorem tracerDied_tracks {exit : Table n → Fin n → Option (Table n)}
    (hexit : ExitTracks env start exit) (h : Tracks env.INIT_PROC_NR start s)
    (hu : (s.flags c).IN_USE = true) (hdied : tracerDied env exit s c = some s') :
    Tracks env.INIT_PROC_NR start s' := by
  have h₁ : Tracks env.INIT_PROC_NR start (s.modify c untrace) := by
    refine h.modify c ?_
    simp [LifeKept, untrace]
  have hu₁ : ((s.modify c untrace).flags c).IN_USE = true := by
    simpa [Table.flags, untrace] using hu
  unfold tracerDied at hdied
  dsimp only at hdied
  generalize s.modify c untrace = s₁ at h₁ hu₁ hdied
  split at hdied
  · exact sigProc_tracks hexit h₁ hdied
  · rename_i hex
    split at hdied
    · rename_i htz
      have hex' : (s₁.flags c).EXITING = true := by
        simpa using hex
      have htold : (s₁.flags c).TOLD_PARENT = false := by
        rcases h₁ c with ⟨life, -, hagrees⟩
        rcases exiting_of_zombie hagrees (Or.inr htz) with ⟨parent, pid, status, traced, rfl⟩
        exact hagrees.2.2.1
      exact checkParent_tracks (h₁.bits hu₁ hex' htold hu₁ hex' htold (fun _ => rfl) (fun _ => rfl))
        hdied
    · cases hdied
      exact h₁

theorem adopt_tracks (h : Tracks env.INIT_PROC_NR start s) (ha : adopt env s c = some s') :
    Tracks env.INIT_PROC_NR start s' := by
  have h₁ : Tracks env.INIT_PROC_NR start (s.modify c (orphan env)) := by
    refine h.modify c ?_
    simp [LifeKept, orphan]
  unfold adopt at ha
  dsimp only at ha
  split at ha
  · exact checkParent_tracks h₁ ha
  · cases ha
    exact h₁

theorem disinherit_tracks {exit : Table n → Fin n → Option (Table n)} {dead : Fin n}
    (hexit : ExitTracks env start exit) (h : Tracks env.INIT_PROC_NR start s)
    (hd : disinherit env exit dead s c = some s') : Tracks env.INIT_PROC_NR start s' := by
  unfold disinherit at hd
  split at hd
  · cases hd
    exact h
  · rename_i hu
    have hu' : (s.flags c).IN_USE = true := by
      simpa using hu
    rcases Option.bind_eq_some_iff.1 hd with ⟨s₁, hfirst, hsecond⟩
    have h₁ : Tracks env.INIT_PROC_NR start s₁ := by
      split at hfirst
      · exact tracerDied_tracks hexit h hu' hfirst
      · cases hfirst
        exact h
    split at hsecond
    · exact adopt_tracks h₁ hsecond
    · cases hsecond
      exact h₁

theorem hangup_tracks {exit : Table n → Fin n → Option (Table n)} {procgrp : Int}
    (hexit : ExitTracks env start exit) (h : Tracks env.INIT_PROC_NR start s)
    (hh : hangup env exit procgrp s c = some s') : Tracks env.INIT_PROC_NR start s' := by
  unfold hangup at hh
  split at hh
  · exact sigProc_tracks hexit h hh
  · cases hh
    exact h

theorem tellVfs_tracks {call : VfsCall} (h : Tracks env.INIT_PROC_NR start s)
    (ht : tellVfs s c call = some s') :
    Tracks env.INIT_PROC_NR start s' ∧ s'.mproc = (s.setFlags c fun f =>
      { f with VFS_CALL := true }).mproc := by
  unfold tellVfs at ht
  split at ht
  · simp at ht
  · cases ht
    refine ⟨h.quiet rfl ?_, rfl⟩
    intro d
    by_cases hd : d = c
    · subst hd
      simp [Table.setFlags, Table.modify, LifeKept]
    · simp only [Table.setFlags, Table.modify, Function.update_of_ne hd]
      exact LifeKept.refl _

theorem markExit_tracks (h : Tracks env.INIT_PROC_NR start s) (ha : (s.mproc c).alive = true)
    (status : Int) : Tracks env.INIT_PROC_NR start (markExit s c status) := by
  rcases alive_iff.1 ha with ⟨hu, hex⟩
  refine h.event rfl rfl ?_ ?_
  · intro d hd
    rw [markExit, record_mproc, modify_of_ne s _ hd]
    exact LifeKept.refl _
  · intro life hagrees
    have hself : (markExit s c status).mproc c =
        { s.mproc c with mp_flags := exitFlags (s.flags c), mp_exitstatus := status.bmod 256 } := by
      rw [markExit, record_mproc, modify_self]
    cases life with
    | free => simp [Agrees, hu] at hagrees
    | exiting parent pid status' traced => simp [Agrees, hex] at hagrees
    | told => simp [Agrees, hex] at hagrees
    | alive parent pid =>
        rcases hagrees with ⟨-, -, -, -, -, hpid, hparent⟩
        refine ⟨.exiting parent pid status false, by simp [Life.next, hpid], ?_⟩
        rw [hself]
        exact ⟨hu, rfl, rfl, hpid, hparent, rfl, by simp, by simp [exitFlags]⟩

theorem stopProc_tracks (h : Tracks env.INIT_PROC_NR start s) (c : Fin n) :
    Tracks env.INIT_PROC_NR start (stopProc env s c) := by
  unfold stopProc
  refine Tracks.modify (Tracks.modify (Tracks.modify h c ?_) _ ?_) c ?_
  · simp [LifeKept]
  · simp [LifeKept]
  · simp [LifeKept]

theorem exitProc_tracks (env : Env n) (start : Fin n → Life n) (who : Fin n) :
    ∀ (fuel : Nat) (s s' : Table n) (c : Fin n) (status : Int) (dumpCore : Bool),
      Tracks env.INIT_PROC_NR start s → (s.mproc c).alive = true →
      exitProc env fuel s who c status dumpCore = some s' → Tracks env.INIT_PROC_NR start s'
  | 0, _, _, _, _, _, _, _, h => by simp [exitProc] at h
  | fuel + 1, s, s', c, status, dumpCore, h, ha, hexit => by
      have hrec : ExitTracks env start fun s d => exitProc env fuel s who d 0 false := by
        intro s s' c h ha hexit
        exact exitProc_tracks env start who fuel s s' c 0 false h ha hexit
      unfold exitProc at hexit
      dsimp only at hexit
      split at hexit
      · cases hexit
        exact stopProc_tracks h c
      · split at hexit
        · simp at hexit
        · rcases Option.bind_eq_some_iff.1 hexit with ⟨s₁, htell, hexit⟩
          rcases Option.bind_eq_some_iff.1 hexit with ⟨s₂, hreport, hexit⟩
          rcases Option.bind_eq_some_iff.1 hexit with ⟨s₃, hloop, hexit⟩
          rcases tellVfs_tracks (stopProc_tracks h c) htell with ⟨h₁, hm₁⟩
          have ha₁ : (s₁.mproc c).alive = true := by
            rw [hm₁]
            have hstop := (stopProc_tweak env s c).slot c
            simp only [Table.setFlags, modify_self, Mproc.alive]
            rw [hstop.in_use, hstop.exiting]
            exact ha
          have hmark := markExit_tracks h₁ ha₁ status
          have h₂ : Tracks env.INIT_PROC_NR start s₂ := by
            split at hreport
            · cases hreport
              exact hmark
            · refine zombify_tracks hmark ?_ ?_ ?_ hreport
              · simpa [markExit, Table.flags, exitFlags] using (alive_iff.1 ha₁).1
              · simp [markExit, Table.flags, exitFlags]
              · simp [markExit, Table.flags, exitFlags]
          have h₃ := foldlM_keeps (fun _ _ _ hs hstep => disinherit_tracks hrec hs hstep) hloop h₂
          generalize (if (s.mproc c).mp_pid = (s.mproc who).mp_procgrp then (s.mproc who).mp_procgrp
            else 0) = procgrp at hexit
          split at hexit
          · exact foldlM_keeps (fun _ _ _ hs hstep => hangup_tracks hrec hs hstep) hexit h₃
          · cases hexit
            exact h₃

theorem exitRestart_tracks {dumpCore : Bool} (h : Tracks env.INIT_PROC_NR start s)
    (hu : (s.flags c).IN_USE = true) (hex : (s.flags c).EXITING = true)
    (htold : dumpCore = true → (s.flags c).TOLD_PARENT = false)
    (hrestart : exitRestart env s c dumpCore = some s') : Tracks env.INIT_PROC_NR start s' := by
  have h₁ : Tracks env.INIT_PROC_NR start (s.modify c fun m => { m with mp_scheduler := none }) := by
    refine h.modify c ?_
    simp [LifeKept]
  have hflags : (s.modify c fun m => { m with mp_scheduler := none }).flags c = s.flags c := by
    simp [Table.flags]
  unfold exitRestart at hrestart
  dsimp only at hrestart
  generalize s.modify c (fun m => { m with mp_scheduler := none }) = s₁ at h₁ hflags hrestart
  rcases Option.bind_eq_some_iff.1 hrestart with ⟨s₂, hreport, hrestart⟩
  rcases Option.bind_eq_some_iff.1 hrestart with ⟨s₃, hreply, hrestart⟩
  have h₂ : Tracks env.INIT_PROC_NR start s₂ := by
    split at hreport
    · rename_i hdump
      exact zombify_tracks h₁ (hflags ▸ hu) (hflags ▸ hex) (hflags ▸ htold hdump) hreport
    · cases hreport
      exact h₁
  have h₃ : Tracks env.INIT_PROC_NR start s₃ := by
    split at hreply
    · rcases Option.map_eq_some_iff.1 hreply with ⟨t, -, hs₃⟩
      subst hs₃
      exact h₂.record rfl
    · cases hreply
      exact h₂
  split at hrestart
  · rename_i htold₃
    cases hrestart
    exact cleanup_tracks h₃ htold₃
  · cases hrestart
    exact h₃

theorem vfsReply_tracks {dumped : Bool} (hs : Inv env ∅ ∅ s) (h : Tracks env.INIT_PROC_NR start s)
    (hreply : vfsReply env s c dumped = some s') : Tracks env.INIT_PROC_NR start s' := by
  rcases Option.bind_eq_some_iff.1 hreply with ⟨call, hcall, hreply⟩
  have hu : (s.flags c).IN_USE = true := by
    cases hu : (s.flags c).IN_USE with
    | true => rfl
    | false => simp [(hs.free c hu).1] at hcall
  have hok := hs.slot c hu
  have h₁ : Tracks env.INIT_PROC_NR start (idle s c) := by
    refine h.quiet rfl ?_
    intro d
    by_cases hd : d = c
    · subst hd
      rw [idle_self, idle_flags]
      simp [LifeKept]
    · rw [(idle_change hu).mproc d hd]
      exact LifeKept.refl _
  have hu₁ : ((idle s c).flags c).IN_USE = true := (idle_change hu).after
  cases call with
  | fork e pid =>
      cases hreply
      exact h₁
  | srvFork e pid uid =>
      cases hreply
      exact h₁
  | other =>
      cases hreply
      exact h₁
  | exit =>
      refine exitRestart_tracks h₁ hu₁ ?_ (by simp) hreply
      rw [idle_flags]
      exact hok.exit_call (Or.inl hcall)
  | dumpcore =>
      have hflags : ((idle s c).modify c fun m => { m with mp_sigstatus :=
          if dumped then m.mp_sigstatus ||| WCOREFLAG else m.mp_sigstatus }).flags c =
          (idle s c).flags c := by
        simp [Table.flags]
      refine exitRestart_tracks (h₁.modify c ?_) (hflags ▸ hu₁) ?_ ?_ hreply
      · simp [LifeKept]
      · rw [hflags, idle_flags]
        exact hok.exit_call (Or.inr hcall)
      · intro _
        rw [hflags, idle_flags]
        exact (hok.dumpcore hcall).2.2

theorem enter_tracks {who : Fin n} {rmc : Mproc n} {call : VfsCall}
    (h : Tracks env.INIT_PROC_NR start s) (hfree : (s.flags c).IN_USE = false)
    (hflags : rmc.mp_flags.IN_USE = true ∧ rmc.mp_flags.EXITING = false ∧
      rmc.mp_flags.ZOMBIE = false ∧ rmc.mp_flags.TRACE_ZOMBIE = false ∧
      rmc.mp_flags.TOLD_PARENT = false) (hparent : rmc.mp_parent = who)
    (henter : enter env s who c rmc call = some s') : Tracks env.INIT_PROC_NR start s' := by
  rcases Option.bind_eq_some_iff.1 henter with ⟨s₁, htell, henter⟩
  have h₀ : Tracks env.INIT_PROC_NR start ({ s with
      procs_in_use := s.procs_in_use + 1
      mproc := Function.update s.mproc c rmc }.record (.forks who c rmc.mp_pid)) := by
    refine h.event rfl rfl ?_ ?_
    · intro d hd
      simp only [record_mproc, Function.update_of_ne hd]
      exact LifeKept.refl _
    · intro life hagrees
      rw [Table.flags] at hfree
      cases life with
      | alive parent pid => simp [Agrees, hfree] at hagrees
      | exiting parent pid status traced => simp [Agrees, hfree] at hagrees
      | told => simp [Agrees, hfree] at hagrees
      | free =>
          refine ⟨.alive who rmc.mp_pid, rfl, ?_⟩
          simp only [record_mproc, Function.update_self]
          rcases hflags with ⟨h₁, h₂, h₃, h₄, h₅⟩
          exact ⟨h₁, h₂, h₃, h₄, h₅, rfl, Or.inl hparent⟩
  have h₁ := (tellVfs_tracks h₀ htell).1
  split at henter
  · exact notify_tracks h₁ henter
  · cases henter
    exact h₁

theorem doFork_tracks {who : Fin n} {vmFork : Except Int Nat} {newPid : Int} {r : Result}
    (h : Tracks env.INIT_PROC_NR start s) (hu : (s.flags who).IN_USE = true)
    (hfork : doFork env s who vmFork newPid = some (r, s')) : Tracks env.INIT_PROC_NR start s' := by
  unfold doFork at hfork
  dsimp only at hfork
  split at hfork
  · cases hfork
    exact h
  · rcases Option.bind_eq_some_iff.1 hfork with ⟨child, hfind, hfork⟩
    have h₁ : Tracks env.INIT_PROC_NR start { s with forkNext := child } := h
    cases vmFork with
    | error e =>
        cases hfork
        exact h₁
    | ok childEp =>
        dsimp only at hfork
        split at hfork
        · simp at hfork
        · rcases Option.map_eq_some_iff.1 hfork with ⟨s₁, henter, heq⟩
          cases heq
          have hfree := findChild_free hfind
          refine enter_tracks (h₁.record rfl) hfree ?_ rfl henter
          exact ⟨hu, rfl, rfl, rfl, rfl⟩

theorem doSrvFork_tracks {who : Fin n} {vmFork : Except Int Nat} {newPid : Int} {uid : Nat}
    {r : Result} (h : Tracks env.INIT_PROC_NR start s) (hu : (s.flags who).IN_USE = true)
    (hfork : doSrvFork env s who vmFork newPid uid = some (r, s')) :
    Tracks env.INIT_PROC_NR start s' := by
  unfold doSrvFork at hfork
  dsimp only at hfork
  split at hfork
  · cases hfork
    exact h
  · split at hfork
    · cases hfork
      exact h
    · rcases Option.bind_eq_some_iff.1 hfork with ⟨child, hfind, hfork⟩
      have h₁ : Tracks env.INIT_PROC_NR start { s with srvNext := child } := h
      cases vmFork with
      | error e =>
          cases hfork
          exact h₁
      | ok childEp =>
          rcases Option.map_eq_some_iff.1 hfork with ⟨s₁, henter, heq⟩
          cases heq
          have hfree := findChild_free hfind
          refine (enter_tracks h₁ hfree ?_ rfl henter).record rfl
          exact ⟨hu, rfl, rfl, rfl, rfl⟩

theorem waitScan_tracks {who : Fin n} {pidarg : Int} {nohang : Bool} {r : Result}
    (h : Tracks env.INIT_PROC_NR start s) :
    ∀ {cs : List (Fin n)} {children : Nat},
      waitScan env who pidarg nohang cs children s = some (r, s') →
      Tracks env.INIT_PROC_NR start s'
  | [], children, hscan => by
      unfold waitScan at hscan
      split at hscan
      · split at hscan
        · cases hscan
          exact h
        · cases hscan
          refine h.modify who ?_
          simp [LifeKept]
      · cases hscan
        exact h
  | c :: cs, children, hscan => by
      unfold waitScan at hscan
      dsimp only at hscan
      split at hscan
      · exact waitScan_tracks h hscan
      · split at hscan
        · rcases Option.bind_eq_some_iff.1 hscan with ⟨s₁, htell, hscan⟩
          rcases Option.map_eq_some_iff.1 hscan with ⟨s₂, hcheck, heq⟩
          cases heq
          exact checkParent_tracks (tellTracer_tracks h htell) hcheck
        · split at hscan
          · cases hscan
            refine h.modify c ?_
            simp [LifeKept]
          · split at hscan
            · rcases Option.map_eq_some_iff.1 hscan with ⟨s₁, htell, heq⟩
              rcases tellParent_tracks h htell with ⟨h₁, htold⟩
              cases heq
              split
              · exact cleanup_tracks h₁ htold
              · exact h₁
            · exact waitScan_tracks h hscan

theorem step_tracks {call : Call n} (hs : Inv env ∅ ∅ s) (hallow : Allowed env s call)
    (h : Tracks env.INIT_PROC_NR start s) (hstep : step env s call = some s') :
    Tracks env.INIT_PROC_NR start s' := by
  cases call with
  | fork who vmFork newPid =>
      rcases Option.map_eq_some_iff.1 hstep with ⟨⟨r, s₁⟩, hfork, rfl⟩
      exact doFork_tracks h hallow.1.present.in_use hfork
  | srvFork who vmFork newPid uid =>
      rcases Option.map_eq_some_iff.1 hstep with ⟨⟨r, s₁⟩, hfork, rfl⟩
      exact doSrvFork_tracks h hallow.1.present.in_use hfork
  | exit who status =>
      rcases Option.map_eq_some_iff.1 hstep with ⟨⟨r, s₁⟩, hexit, rfl⟩
      unfold doExit at hexit
      split at hexit
      · cases hexit
        exact h.record rfl
      · rcases Option.map_eq_some_iff.1 hexit with ⟨s₂, hproc, heq⟩
        cases heq
        have hwho : Caller s who := hallow
        exact (exitProc_tracks env start who _ s s₂ who status false h hwho.2.1 hproc).record rfl
  | exitProc who c status dumpCore =>
      exact exitProc_tracks env start who _ s s' c status dumpCore h hallow.1 hstep
  | waitpid who pid nohang =>
      rcases Option.map_eq_some_iff.1 hstep with ⟨⟨r, s₁⟩, hscan, rfl⟩
      exact waitScan_tracks h hscan
  | vfsReply c dumped => exact vfsReply_tracks hs h hstep
  | other s₁ =>
      have hfor : Foreign s s₁ := hallow
      cases hstep
      exact h.quiet hfor.history hfor.lifeKept

/-- The life with which a slot comes out of the boot. -/
def bootLife (s : Table n) (c : Fin n) : Life n :=
  if (s.flags c).IN_USE then .alive (s.mproc c).mp_parent (s.mproc c).mp_pid else .free

theorem Boot.tracks (h : Boot env s) : Tracks env.INIT_PROC_NR (bootLife s) s := by
  intro c
  refine ⟨bootLife s c, by rw [h.history]; rfl, ?_⟩
  unfold bootLife
  cases hu : (s.flags c).IN_USE with
  | false =>
      have hf := h.free c hu
      rw [Table.flags] at hf
      simp [Agrees, hf]
  | true =>
      have hf := h.flags c hu
      rw [Table.flags] at hf
      rw [if_pos rfl]
      refine ⟨?_, ?_, ?_, ?_, ?_, rfl, Or.inl rfl⟩ <;> rw [hf]

theorem run_tracks {calls : List (Call n)} (hs : Inv env ∅ ∅ s)
    (h : Tracks env.INIT_PROC_NR start s) (hcalls : Guarded (step env) (Allowed env) s calls)
    (hrun : calls.foldlM (step env) s = some s') : Tracks env.INIT_PROC_NR start s' := by
  induction calls generalizing s with
  | nil =>
      cases hrun
      exact h
  | cons call calls ih =>
      rcases foldlM_cons_eq_some.1 hrun with ⟨s₁, hstep, hrest⟩
      rcases step_ok hs hcalls.1 with ⟨s₂, hstep₂, hs₂⟩
      rw [hstep] at hstep₂
      cases hstep₂
      exact ih hs₂ (step_tracks hs hcalls.1 h hstep) (hcalls.2 s₁ hstep) hrest

end Functions

/-! ## Whole runs -/

/-- In every run the events of every slot form a life: after each fork into the slot at most one exit,
for each exit one report to the parent that has the pid and the status, and the slot is released only
after the report.  The table shows where the life has come to. -/
theorem run_lifecycle (env : Env n) {s₀ s : Table n} (hboot : Boot env s₀) {calls : List (Call n)}
    (hcalls : Guarded (step env) (Allowed env) s₀ calls) (hrun : calls.foldlM (step env) s₀ = some s)
    (c : Fin n) :
    ∃ life, lifeOf env.INIT_PROC_NR (bootLife s₀ c) c s.history = some life ∧
      Agrees env.INIT_PROC_NR (s.mproc c) life :=
  run_tracks hboot.inv hboot.tracks hcalls hrun c

theorem run_lifecycle_small :
    lifeOf 1 .free 3 (smallAfter 5).history = some .free ∧
      ∃ life, lifeOf 1 .free 3 (smallAfter 5).history = some life ∧
        Agrees 1 ((smallAfter 5).mproc 3) life :=
  ⟨by decide +kernel, run_lifecycle smallEnv boot_smallTable guarded_small (s := smallAfter 5) rfl 3⟩

end Pm
end OsLab
