import OsLab.Lib.Runs
import OsLab.Pm.Exit

/-!
# Calls — the system calls keep the process table in order

From a table as it is between calls, every call that callers, kernel and VFS may make ends without a
panic and leaves such a table behind: a run never stops.
-/

namespace OsLab
namespace Pm

open OsLab.Lib

variable {n : Nat} {env : Env n} {s s' : Table n} {c who : Fin n}

/-! ## exit_restart -/

/-- The last lines of `exit_restart`: the tracer that asked for the exit is answered, and the slot is
released if the parent knows. -/
theorem restart_tail (hs : Inv env ∅ {c} s) (hu : (s.flags c).IN_USE = true)
    (hex : (s.flags c).EXITING = true) (hv : s.vfs c = none)
    (hsettle : ((s.flags c).TOLD_PARENT = true → s.vfs c ≠ none) → Settled s c) :
    ∃ s', ((if (s.mproc c).mp_flags.TRACE_EXIT then
        (s.mproc c).mp_tracer.map fun t => s.record (.replies t 0) else some s).bind fun s =>
      if (s.mproc c).mp_flags.TOLD_PARENT then some (cleanup s c) else some s) = some s' ∧
      Inv env ∅ ∅ s' := by
  have hrecord : ∃ s₁, (if (s.mproc c).mp_flags.TRACE_EXIT then
      (s.mproc c).mp_tracer.map fun t => s.record (.replies t 0) else some s) = some s₁ ∧
      Tweak s s₁ ∧ s₁.mproc = s.mproc := by
    cases hte : (s.mproc c).mp_flags.TRACE_EXIT with
    | false => exact ⟨s, by simp, ⟨fun _ => SlotTweak.refl _, rfl, rfl⟩, rfl⟩
    | true =>
        cases ht : (s.mproc c).mp_tracer with
        | none => exact absurd ht ((hs.slot c hu).trace_exit hte)
        | some t => exact ⟨s.record (.replies t 0), by simp, Tweak.record s _, rfl⟩
  rcases hrecord with ⟨s₁, hrecord, htweak, hsame⟩
  have hs₁ : Inv env ∅ (insert c ∅) s₁ := by
    simpa using hs.tweak htweak
  have hflags : s₁.flags c = s.flags c := by
    rw [Table.flags, hsame]
  rw [hrecord]
  simp only [Option.bind_some]
  cases htold : (s₁.mproc c).mp_flags.TOLD_PARENT with
  | true =>
      rcases hs₁.cleanup (hflags ▸ hu) (hflags ▸ hex) (htweak.vfs ▸ hv) with ⟨hinv, -⟩
      refine ⟨_, by simp, hinv.settle ?_⟩
      intro hbad
      exact absurd rfl (cleanup_ne hbad)
  | false =>
      refine ⟨s₁, by simp, hs₁.settle ?_⟩
      intro _
      refine (hsettle ?_).tweak htweak
      intro hbad
      rw [hsame] at htold
      simp [Table.flags, htold] at hbad

/-- The process is VFS-idle again. -/
def idle (s : Table n) (c : Fin n) : Table n :=
  { s.setFlags c fun f => { f with VFS_CALL := false, NEW_PARENT := false } with
    vfs := Function.update s.vfs c none }

theorem idle_flags (s : Table n) (c : Fin n) :
    (idle s c).flags c = { s.flags c with VFS_CALL := false, NEW_PARENT := false } := by
  simp [idle, Table.flags, Table.setFlags, Table.modify]

theorem idle_self (s : Table n) (c : Fin n) :
    (idle s c).mproc c = { s.mproc c with mp_flags := (idle s c).flags c } := by
  simp [idle, Table.flags, Table.setFlags, Table.modify]

theorem idle_vfs (s : Table n) (c : Fin n) : (idle s c).vfs c = none := by
  simp [idle]

theorem idle_change (hu : (s.flags c).IN_USE = true) : Change s (idle s c) c := by
  refine ⟨⟨rfl, ?_, ?_, hu, ?_, ?_⟩, ?_, ?_⟩
  · intro d hd
    simp [idle, Table.setFlags, Table.modify, hd]
  · intro d hd
    simp [idle, hd]
  · rw [idle_flags]
    exact hu
  · rw [idle_self]
  · rw [idle_flags]
    exact id
  · rw [idle_self]

theorem Inv.idle (hs : Inv env ∅ ∅ s) (hu : (s.flags c).IN_USE = true) :
    Inv env ∅ {c} (idle s c) := by
  have hok := hs.slot c hu
  refine hs.change (idle_change hu) (fun _ _ => Iff.rfl) (by simp) ?_ ?_ ?_ ?_ ?_ ?_ ?_ ?_
  · rintro rfl
    rw [idle_flags]
    exact (alive_iff.1 hs.init.1).2
  · rw [idle_flags]
    intro hex
    exact Or.inl ⟨hex, id⟩
  · rw [idle_self]
    exact Or.inl rfl
  · rw [idle_self]
    exact fun t ht => ht
  · rw [idle_self, idle_flags, idle_vfs]
    exact { hok with
      vfs_call := rfl
      exit_call := fun h => by simp at h
      exiting := fun _ => Or.inl rfl
      dumpcore := fun h => by simp at h }
  · simp
  · simp [idle_vfs]
  · simp

/-- A report that VFS does not hold up stays as it is. -/
theorem idle_settles (hs : Inv env ∅ ∅ s) (hu : (s.flags c).IN_USE = true)
    (hdump : s.vfs c ≠ some .dumpcore)
    (htold : ((Pm.idle s c).flags c).TOLD_PARENT = true → (Pm.idle s c).vfs c ≠ none) :
    Settled (Pm.idle s c) c := by
  have hset := hs.settled c hu (Set.notMem_empty c)
  have hchange := idle_change hu
  constructor
  · rw [idle_flags]
    intro hex
    rcases hset.marked hex with h | h | h | h
    · exact Or.inl h
    · exact Or.inr (Or.inl h)
    · exact Or.inr (Or.inr (Or.inl h))
    · exact absurd h hdump
  · exact htold
  · rw [idle_self, idle_flags]
    exact hset.traced
  · rw [idle_flags]
    intro hz
    refine waitTest_mono ?_ ?_ (by rw [idle_self]) (by rw [idle_self]) (hset.parent hz)
    · rw [idle_self s c]
      exact hchange.waiting_of _
    · rw [idle_self s c]
      exact hchange.wpid_eq _
  · rw [idle_flags]
    intro htz t ht
    rw [idle_self] at ht
    exact waitTest_mono (hchange.waiting_of t) (hchange.wpid_eq t) (by rw [idle_self])
      (by rw [idle_self]) (hset.tracer htz t ht)

theorem exitRestart_ok (hs : Inv env ∅ {c} s) (hu : (s.flags c).IN_USE = true)
    (hex : (s.flags c).EXITING = true) (hv : s.vfs c = none) (dumpCore : Bool)
    (hplain : dumpCore = false →
      ((s.flags c).TOLD_PARENT = true → s.vfs c ≠ none) → Settled s c)
    (hdump : dumpCore = true → (s.flags c).ZOMBIE = false ∧ (s.flags c).TRACE_ZOMBIE = false ∧
      (s.flags c).TOLD_PARENT = false) :
    ∃ s', exitRestart env s c dumpCore = some s' ∧ Inv env ∅ ∅ s' := by
  have htweak : Tweak s (s.modify c fun m => { m with mp_scheduler := none }) := by
    refine Tweak.modify s c ?_
    constructor <;> simp
  have hs₁ := hs.tweak htweak
  have hbits := htweak.exit_bits c
  have hu₁ := (htweak.slot c).in_use.trans hu
  have hex₁ := (htweak.slot c).exiting.trans hex
  unfold exitRestart
  dsimp only
  generalize s.modify c (fun m => { m with mp_scheduler := none }) = s₁ at htweak hs₁ hbits hu₁ hex₁ ⊢
  have hv₁ : s₁.vfs c = none := by
    rw [htweak.vfs]
    exact hv
  cases dumpCore with
  | false =>
      refine restart_tail hs₁ hu₁ hex₁ hv₁ ?_
      intro htold
      refine (hplain rfl ?_).tweak htweak
      rw [← hbits.2.2, ← htweak.vfs]
      exact htold
  | true =>
      rcases hdump rfl with ⟨hz, htz, htold⟩
      rcases zombify_ok hs₁ (Set.mem_singleton c) hu₁ hex₁ (by simp [hv₁]) (hbits.1.trans hz)
        (hbits.2.1.trans htz) (hbits.2.2.trans htold) with
        ⟨s₂, hzombify, hs₂, hlater, hu₂, hv₂, hsettle⟩
      rw [if_pos rfl, hzombify]
      exact restart_tail hs₂ hu₂ (hlater.exiting c hu₂ hex₁) (hv₂.trans hv₁) hsettle

/-- VFS answers a request. -/
theorem vfsReply_ok (hs : Inv env ∅ ∅ s) (hv : s.vfs c ≠ none) (dumped : Bool) :
    ∃ s', vfsReply env s c dumped = some s' ∧ Inv env ∅ ∅ s' := by
  have hu : (s.flags c).IN_USE = true := by
    cases hu : (s.flags c).IN_USE with
    | true => rfl
    | false => exact absurd (hs.free c hu).1 hv
  have hok := hs.slot c hu
  have hidle := hs.idle hu
  have hu' : ((idle s c).flags c).IN_USE = true := (idle_change hu).after
  rcases Option.ne_none_iff_exists'.1 hv with ⟨call, hcall⟩
  -- The requests of processes that are not exiting have no second half here.
  have hother : (s.flags c).EXITING = false → ∃ s', some (idle s c) = some s' ∧ Inv env ∅ ∅ s' := by
    intro hex
    have hidle' : Inv env ∅ (insert c ∅) (idle s c) := by
      simpa using hidle
    refine ⟨_, rfl, hidle'.settle ?_⟩
    intro _
    refine (hidle.slot c hu').settled ?_
    rw [idle_flags]
    exact hex
  have halive : ∀ {call'}, s.vfs c = some call' → call' ≠ .exit → call' ≠ .dumpcore →
      (s.flags c).EXITING = false := by
    intro call' hcall' h₁ h₂
    cases hex : (s.flags c).EXITING with
    | false => rfl
    | true =>
        rcases hok.exiting hex with h | h | h
        · simp [hcall'] at h
        · rw [hcall'] at h
          exact absurd (Option.some.inj h) h₁
        · rw [hcall'] at h
          exact absurd (Option.some.inj h) h₂
  unfold vfsReply
  rw [hcall]
  simp only [Option.bind_some]
  cases call with
  | fork e pid => exact hother (halive hcall (by simp) (by simp))
  | srvFork e pid uid => exact hother (halive hcall (by simp) (by simp))
  | other => exact hother (halive hcall (by simp) (by simp))
  | exit =>
      have hex : ((idle s c).flags c).EXITING = true := by
        rw [idle_flags]
        exact hok.exit_call (Or.inl hcall)
      refine exitRestart_ok hidle hu' hex (idle_vfs s c) false ?_ (by simp)
      intro _ htold
      exact idle_settles hs hu (by simp [hcall]) htold
  | dumpcore =>
      have hex : (s.flags c).EXITING = true := hok.exit_call (Or.inr hcall)
      rcases hok.dumpcore hcall with ⟨hz, htz, htold⟩
      have htweak : Tweak (idle s c) ((idle s c).modify c fun m =>
          { m with
            mp_sigstatus := if dumped then m.mp_sigstatus ||| WCOREFLAG else m.mp_sigstatus }) := by
        refine Tweak.modify _ c ?_
        constructor <;> simp
      have hbits := htweak.exit_bits c
      rw [idle_flags] at hbits
      refine exitRestart_ok (hidle.tweak htweak) ((htweak.slot c).in_use.trans hu') ?_ ?_ true (by simp)
        ?_
      · refine (htweak.slot c).exiting.trans ?_
        change ((idle s c).flags c).EXITING = true
        rw [idle_flags]
        exact hex
      · rw [htweak.vfs]
        exact idle_vfs s c
      · intro _
        exact ⟨hbits.1.trans hz, hbits.2.1.trans htz, hbits.2.2.trans htold⟩

/-! ## fork -/

theorem nextSlot_val (d : Fin n) : (nextSlot d).val = (d.val + 1) % n :=
  rfl

/-- The loop looks at the slots after `next`, one turn each. -/
theorem findChild_eq_none {s : Table n} :
    ∀ {turns : Nat} {next : Fin n}, findChild s turns next = none →
      ∀ k, k < turns → ∀ d : Fin n, d.val = (next.val + (k + 1)) % n → (s.flags d).IN_USE = true
  | 0, _, _, k, hk, _, _ => absurd hk (Nat.not_lt_zero k)
  | turns + 1, next, h, k, hk, d, hd => by
      unfold findChild at h
      cases hu : (s.mproc (nextSlot next)).mp_flags.IN_USE with
      | false => simp [hu] at h
      | true =>
          simp only [hu, if_true] at h
          cases k with
          | zero =>
              have heq : d = nextSlot next := Fin.ext (by rw [hd, nextSlot_val])
              rw [heq]
              exact hu
          | succ k =>
              refine findChild_eq_none h k (by omega) d ?_
              rw [hd, nextSlot_val, Nat.mod_add_mod]
              congr 1
              omega

theorem findChild_free {s : Table n} :
    ∀ {turns : Nat} {next child : Fin n}, findChild s turns next = some child →
      (s.flags child).IN_USE = false
  | 0, _, _, h => by simp [findChild] at h
  | turns + 1, next, child, h => by
      unfold findChild at h
      cases hu : (s.mproc (nextSlot next)).mp_flags.IN_USE with
      | true =>
          simp only [hu, if_true] at h
          exact findChild_free h
      | false =>
          simp only [hu, Bool.false_eq_true, if_false, Option.some.injEq] at h
          rw [← h]
          exact hu

/-- A slot must exist: the counter and the table agree. -/
theorem findChild_ok {D X : Set (Fin n)} (hs : Inv env D X s) (hfull : s.procs_in_use ≠ n)
    (next : Fin n) :
    ∃ child, findChild s n next = some child ∧ (s.flags child).IN_USE = false := by
  cases hfind : findChild s n next with
  | some child => exact ⟨child, rfl, findChild_free hfind⟩
  | none =>
      exfalso
      refine hfull ?_
      have hall : ∀ d, (s.flags d).IN_USE = true := by
        intro d
        have hd := d.isLt
        have hn := next.isLt
        by_cases hlt : next.val < d.val
        · refine findChild_eq_none hfind (d.val - next.val - 1) (by omega) d ?_
          rw [show next.val + (d.val - next.val - 1 + 1) = d.val from by omega, Nat.mod_eq_of_lt hd]
        · refine findChild_eq_none hfind (d.val + n - next.val - 1) (by omega) d ?_
          rw [show next.val + (d.val + n - next.val - 1 + 1) = d.val + n from by omega,
            Nat.add_mod_right, Nat.mod_eq_of_lt hd]
      have hused : s.used = Finset.univ := by
        simp [Table.used, hall]
      rw [hs.count, hused, Finset.card_univ, Fintype.card_fin]

/-- The new slot of a child. -/
structure Child (env : Env n) (s : Table n) (rmc : Mproc n) (call : VfsCall) : Prop where
  flags : rmc.mp_flags =
    { IN_USE := true, PRIV_PROC := rmc.mp_flags.PRIV_PROC, DELAY_CALL := rmc.mp_flags.DELAY_CALL,
      TAINTED := rmc.mp_flags.TAINTED }
  parent : (s.mproc rmc.mp_parent).alive = true ∧ rmc.mp_parent.val ≠ 0
  tracer : ∀ t, rmc.mp_tracer = some t → Present ∅ s t
  endpoint : rmc.mp_endpoint ≠ env.INIT_PROC_NR.val ∧ rmc.mp_endpoint ≠ env.VFS_PROC_NR
  scheduler : rmc.mp_flags.PRIV_PROC = true → rmc.mp_scheduler = none
  pid : 0 < rmc.mp_pid
  procgrp : 0 ≤ rmc.mp_procgrp
  no_exit : call ≠ .exit ∧ call ≠ .dumpcore
  forking : ∀ e pid, call = .fork e pid → (s.mproc rmc.mp_parent).mp_endpoint = e

/-- The table with the child in it. -/
def entered (s : Table n) (who child : Fin n) (rmc : Mproc n) (call : VfsCall) : Table n :=
  { s with
    procs_in_use := s.procs_in_use + 1
    mproc := Function.update s.mproc child
      { rmc with mp_flags := { rmc.mp_flags with VFS_CALL := true } }
    vfs := Function.update s.vfs child (some call)
    history := s.history ++ [.forks who child rmc.mp_pid] }

theorem Inv.entered {child : Fin n} {rmc : Mproc n} {call : VfsCall} (hs : Inv env ∅ ∅ s)
    (hfree : (s.flags child).IN_USE = false) (hc : Child env s rmc call) (who : Fin n) :
    Inv env ∅ ∅ (entered s who child rmc call) := by
  have hself : (Pm.entered s who child rmc call).mproc child =
      { rmc with mp_flags := { rmc.mp_flags with VFS_CALL := true } } := by
    simp [Pm.entered]
  have hflags : (Pm.entered s who child rmc call).flags child =
      { IN_USE := true, VFS_CALL := true, PRIV_PROC := rmc.mp_flags.PRIV_PROC,
        DELAY_CALL := rmc.mp_flags.DELAY_CALL, TAINTED := rmc.mp_flags.TAINTED } := by
    rw [Table.flags, hself, hc.flags]
  have hne : ∀ d, d ≠ child → (Pm.entered s who child rmc call).mproc d = s.mproc d := by
    intro d hd
    simp [Pm.entered, hd]
  have hvne : ∀ d, d ≠ child → (Pm.entered s who child rmc call).vfs d = s.vfs d := by
    intro d hd
    simp [Pm.entered, hd]
  have hvself : (Pm.entered s who child rmc call).vfs child = some call := by
    simp [Pm.entered]
  have hused : ∀ d, (s.flags d).IN_USE = true → d ≠ child := by
    rintro d hd rfl
    simp [hfree] at hd
  have hpresent : ∀ p, Present ∅ s p → Present ∅ (Pm.entered s who child rmc call) p := by
    intro p hp
    have hpc := hused p hp.in_use
    refine ⟨hp.pos, ?_, ?_⟩
    · rw [Table.flags, hne p hpc]
      exact hp.in_use
    · rw [Table.flags, hne p hpc]
      exact hp.exiting
  have hparent : Present ∅ s rmc.mp_parent := by
    rcases alive_iff.1 hc.parent.1 with ⟨hu, hex⟩
    refine ⟨hc.parent.2, hu, ?_⟩
    intro hbad
    simp [Table.flags, hex] at hbad
  constructor
  · have hins : (Pm.entered s who child rmc call).used = insert child s.used := by
      ext d
      by_cases hd : d = child
      · subst hd
        simp [Table.used, hflags]
      · simp [Table.used, Table.flags, hne d hd, hd]
    have hnot : child ∉ s.used := by
      simp [Table.used, hfree]
    have hprocs : (Pm.entered s who child rmc call).procs_in_use = s.procs_in_use + 1 := rfl
    rw [hins, Finset.card_insert_of_notMem hnot, hprocs, hs.count]
    push_cast
    rfl
  · intro d hd
    have hdc : d ≠ child := by
      rintro rfl
      simp [hflags] at hd
    rw [Table.flags, hne d hdc] at hd ⊢
    rw [hvne d hdc]
    exact hs.free d hd
  · rw [hne _ (hused _ (alive_iff.1 hs.init.1).1)]
    exact hs.init
  · intro d hd he
    by_cases hdc : d = child
    · subst hdc
      rw [hself] at he
      exact absurd he hc.endpoint.1
    · rw [Table.flags, hne d hdc] at hd
      rw [hne d hdc] at he
      exact hs.endpoint d hd he
  · intro d hd
    by_cases hdc : d = child
    · subst hdc
      rw [hself]
      exact hpresent _ hparent
    · rw [Table.flags, hne d hdc] at hd
      rw [hne d hdc]
      exact hpresent _ (hs.parent d hd)
  · intro d t hd ht
    by_cases hdc : d = child
    · subst hdc
      rw [hself] at ht
      exact hpresent t (hc.tracer t ht)
    · rw [Table.flags, hne d hdc] at hd
      rw [hne d hdc] at ht
      exact hpresent t (hs.tracer d t hd ht)
  · intro d hd
    by_cases hdc : d = child
    · subst hdc
      rw [hself, hvself, hc.flags]
      constructor
      · simp
      · simp
      · simp
      · simp
      · simp
      · simp [hc.no_exit.1, hc.no_exit.2]
      · simp
      · simp
      · simp
      · exact hc.scheduler
      · intro he
        exact absurd he hc.endpoint.2
      · exact hc.pid
      · exact hc.procgrp
    · rw [Table.flags, hne d hdc] at hd
      rw [hne d hdc, hvne d hdc]
      exact hs.slot d hd
  · simp
  · intro d e pid hfork
    by_cases hdc : d = child
    · subst hdc
      rw [hvself] at hfork
      rw [hself, hne _ (hused _ hparent.in_use)]
      exact Or.inr (hc.forking e pid (Option.some.inj hfork))
    · rw [hvne d hdc] at hfork
      have hd : (s.flags d).IN_USE = true := by
        cases hd : (s.flags d).IN_USE with
        | true => rfl
        | false => simp [(hs.free d hd).1] at hfork
      rw [Table.flags, hne d hdc, hne _ (hused _ (hs.parent d hd).in_use)]
      exact hs.forking d e pid hfork
  · intro d hd hx
    by_cases hdc : d = child
    · subst hdc
      constructor <;> simp [hflags]
    · rw [Table.flags, hne d hdc] at hd
      have hset := hs.settled d hd hx
      constructor
      · rw [Table.flags, hne d hdc, hvne d hdc]
        exact hset.marked
      · rw [Table.flags, hne d hdc, hvne d hdc]
        exact hset.told
      · rw [Table.flags, hne d hdc]
        exact hset.traced
      · rw [Table.flags, hne d hdc, hne _ (hused _ (hs.parent d hd).in_use)]
        exact hset.parent
      · rw [Table.flags, hne d hdc]
        intro htz t ht
        rw [hne t (hused t (hs.tracer d t hd ht).in_use)]
        exact hset.tracer htz t ht

theorem enter_ok {child : Fin n} {rmc : Mproc n} {call : VfsCall} (hs : Inv env ∅ ∅ s)
    (hfree : (s.flags child).IN_USE = false) (hc : Child env s rmc call) (who : Fin n) :
    ∃ s', enter env s who child rmc call = some s' ∧ Inv env ∅ ∅ s' := by
  have hinv := hs.entered hfree hc who
  have hidle : rmc.mp_flags.VFS_CALL = false := by
    rw [hc.flags]
  have htell : tellVfs ({ s with
      procs_in_use := s.procs_in_use + 1
      mproc := Function.update s.mproc child rmc }.record (.forks who child rmc.mp_pid)) child call =
      some (entered s who child rmc call) := by
    simp [tellVfs, entered, Table.record, Table.setFlags, Table.modify, hidle]
  unfold enter
  dsimp only
  rw [htell]
  simp only [Option.bind_some]
  by_cases ht : ((entered s who child rmc call).mproc child).mp_tracer ≠ none
  · have halive : ((entered s who child rmc call).mproc child).alive = true := by
      have hflags : rmc.mp_flags.IN_USE = true ∧ rmc.mp_flags.EXITING = false := by
        rw [hc.flags]
        exact ⟨rfl, rfl⟩
      simp [entered, Mproc.alive, hflags]
    have hfor := env.notice_foreign _ child .SIGSTOP halive
    refine ⟨_, ?_, hinv.foreign hfor⟩
    rw [if_pos ht]
    simp [notify, halive]
  · exact ⟨_, by rw [if_neg ht], hinv⟩

theorem Caller.present (h : Caller s who) : Present ∅ s who := by
  rcases alive_iff.1 h.2.1 with ⟨hu, hex⟩
  refine ⟨h.1, hu, ?_⟩
  intro hbad
  simp [Table.flags, hex] at hbad

theorem tracer_copied {t : Fin n} (hs : Inv env ∅ ∅ s) (hwho : Caller s who)
    (ht : (if (s.mproc who).TO_TRACEFORK then (s.mproc who).mp_tracer else none) = some t) :
    Present ∅ s t := by
  cases htf : (s.mproc who).TO_TRACEFORK with
  | false => simp [htf] at ht
  | true =>
      simp only [htf, if_true] at ht
      exact hs.tracer who t hwho.present.in_use ht

theorem child_fork {childEp : Nat} {newPid : Int} (hs : Inv env ∅ ∅ s) (hwho : Caller s who)
    (hpid : 0 < newPid) (hep : childEp ≠ env.INIT_PROC_NR.val ∧ childEp ≠ env.VFS_PROC_NR) :
    Child env s (forkSlot env (s.mproc who) who childEp newPid)
      (.fork (s.mproc who).mp_endpoint newPid) where
  flags := by
    have hu : (s.mproc who).mp_flags.IN_USE = true := hwho.present.in_use
    simp [forkSlot, copySlot, hu]
  parent := ⟨hwho.2.1, hwho.1⟩
  tracer := fun _ ht => tracer_copied hs hwho ht
  endpoint := hep
  scheduler := by simp [forkSlot, copySlot]
  pid := hpid
  procgrp := (hs.slot who hwho.present.in_use).procgrp
  no_exit := by simp
  forking := by
    intro e pid heq
    injection heq

theorem child_srvFork {childEp : Nat} {newPid : Int} (hs : Inv env ∅ ∅ s) (hwho : Caller s who)
    (hpid : 0 < newPid) (hep : childEp ≠ env.INIT_PROC_NR.val ∧ childEp ≠ env.VFS_PROC_NR)
    (uid : Nat) :
    Child env s (srvForkSlot (s.mproc who) who childEp newPid uid)
      (.srvFork (s.mproc who).mp_endpoint newPid uid) where
  flags := by
    have hu : (s.mproc who).mp_flags.IN_USE = true := hwho.present.in_use
    simp [srvForkSlot, copySlot, hu]
  parent := ⟨hwho.2.1, hwho.1⟩
  tracer := fun _ ht => tracer_copied hs hwho ht
  endpoint := hep
  scheduler := (hs.slot who hwho.present.in_use).scheduler
  pid := hpid
  procgrp := (hs.slot who hwho.present.in_use).procgrp
  no_exit := by simp
  forking := by simp

/-- What is not the table does not matter. -/
theorem tweak_of_eq (hm : s'.mproc = s.mproc) (hp : s'.procs_in_use = s.procs_in_use)
    (hv : s'.vfs = s.vfs) : Tweak s s' := by
  refine ⟨?_, hp, hv⟩
  intro d
  rw [hm]
  exact SlotTweak.refl _

theorem room_of_not_full {rmp : Mproc n} (h : tableFull s rmp = false) : s.procs_in_use ≠ n := by
  intro heq
  simp [tableFull, heq] at h

theorem doFork_ok {vmFork : Except Int Nat} {newPid : Int} (hs : Inv env ∅ ∅ s)
    (hwho : Caller s who) (hnew : NewProcess env vmFork newPid) :
    ∃ r s', doFork env s who vmFork newPid = some (r, s') ∧ Inv env ∅ ∅ s' := by
  unfold doFork
  dsimp only
  cases hfull : tableFull s (s.mproc who) with
  | true => exact ⟨_, s, rfl, hs⟩
  | false =>
      rcases findChild_ok hs (room_of_not_full hfull) s.forkNext with ⟨child, hfind, hfree⟩
      rw [hfind]
      simp only [Bool.false_eq_true, if_false, Option.bind_some]
      cases vmFork with
      | error r => exact ⟨_, _, rfl, hs.tweak (tweak_of_eq rfl rfl rfl)⟩
      | ok childEp =>
          have hsched : ¬ ((s.mproc who).mp_flags.PRIV_PROC = true ∧
              (s.mproc who).mp_scheduler ≠ none) := by
            rintro ⟨hpriv, hne⟩
            exact hne ((hs.slot who hwho.present.in_use).scheduler hpriv)
          have htweak : Tweak s ({ s with forkNext := child }.record (.printsCreated newPid)) :=
            tweak_of_eq rfl rfl rfl
          have hwho' : Caller ({ s with forkNext := child }.record (.printsCreated newPid)) who := hwho
          rcases enter_ok (hs.tweak htweak) hfree
            (child_fork (hs.tweak htweak) hwho' hnew.1 (hnew.2 childEp rfl)) who with
            ⟨s', henter, hs'⟩
          refine ⟨.suspend, s', ?_, hs'⟩
          dsimp only
          rw [if_neg hsched]
          exact congrArg (Option.map fun s => (Result.suspend, s)) henter

theorem doSrvFork_ok {vmFork : Except Int Nat} {newPid : Int} (hs : Inv env ∅ ∅ s)
    (hwho : Caller s who) (hnew : NewProcess env vmFork newPid) (uid : Nat) :
    ∃ r s', doSrvFork env s who vmFork newPid uid = some (r, s') ∧ Inv env ∅ ∅ s' := by
  unfold doSrvFork
  dsimp only
  by_cases hrs : (s.mproc who).mp_endpoint ≠ env.RS_PROC_NR
  · exact ⟨_, s, by rw [if_pos hrs], hs⟩
  · rw [if_neg hrs]
    cases hfull : tableFull s (s.mproc who) with
    | true => exact ⟨_, s, rfl, hs⟩
    | false =>
        rcases findChild_ok hs (room_of_not_full hfull) s.srvNext with ⟨child, hfind, hfree⟩
        rw [hfind]
        simp only [Bool.false_eq_true, if_false, Option.bind_some]
        cases vmFork with
        | error r => exact ⟨_, _, rfl, hs.tweak (tweak_of_eq rfl rfl rfl)⟩
        | ok childEp =>
            have htweak : Tweak s { s with srvNext := child } := tweak_of_eq rfl rfl rfl
            have hwho' : Caller { s with srvNext := child } who := hwho
            rcases enter_ok (hs.tweak htweak) hfree
              (child_srvFork (hs.tweak htweak) hwho' hnew.1 (hnew.2 childEp rfl) uid) who with
              ⟨s', henter, hs'⟩
            refine ⟨.result newPid, s'.record (.replies child 0), ?_, hs'.tweak (Tweak.record s' _)⟩
            exact congrArg (Option.map fun s : Table n =>
              (Result.result newPid, s.record (.replies child 0))) henter

/-! ## waitpid -/

/-- The process begins to wait, and no exit that it waits for is there to be reported. -/
theorem Inv.wait {pidarg : Int} (hs : Inv env ∅ ∅ s) (hwho : Caller s who)
    (hscan : ∀ c, (s.flags c).IN_USE = true →
      ((s.flags c).ZOMBIE = true ∧ (s.mproc c).mp_parent = who ∨
        (s.flags c).TRACE_ZOMBIE = true ∧ (s.mproc c).mp_tracer = some who) →
      qualifies pidarg (s.mproc c) = false) :
    Inv env ∅ ∅ (s.modify who fun m =>
      { m with mp_flags := { m.mp_flags with WAITING := true }, mp_wpid := pidarg }) := by
  rcases alive_iff.1 hwho.2.1 with ⟨hu, hex⟩
  have hex' : (s.flags who).EXITING = false := hex
  have hok := hs.slot who hu
  have hflags : (s.modify who fun m =>
      { m with mp_flags := { m.mp_flags with WAITING := true }, mp_wpid := pidarg }).flags who =
      { s.flags who with WAITING := true } := by
    simp [Table.flags]
  have hok' : SlotOk env ((s.modify who fun m =>
      { m with mp_flags := { m.mp_flags with WAITING := true }, mp_wpid := pidarg }).mproc who)
      (s.vfs who) := by
    rw [modify_self]
    exact { hok with waiting := fun h => by simp [hex] at h }
  -- The process does not wait for a child that fails the pid test.
  have hmiss : ∀ c, (s.flags c).IN_USE = true → qualifies pidarg (s.mproc c) = false →
      ∀ p : Mproc n, p.mp_wpid = pidarg → waitTest p (s.mproc c) = false := by
    intro c hc hq p hp
    have hpid := (hs.slot c hc).pid
    have hgrp := (hs.slot c hc).procgrp
    simp only [qualifies, Bool.and_eq_false_iff, Bool.not_eq_false', Bool.and_eq_true,
      decide_eq_true_eq, bne_iff_ne, ne_eq] at hq
    simp only [waitTest, hp, Bool.and_eq_false_iff, Bool.or_eq_false_iff, beq_eq_false_iff_ne, ne_eq]
    right
    omega
  refine hs.update (c := who) ⟨rfl, ?_, fun _ _ => rfl, hu, ?_, ?_⟩ (fun _ _ => Iff.rfl) ?_ ?_ ?_ ?_ ?_
    ?_ ?_ ?_
  · intro d hd
    exact modify_of_ne s _ hd
  · rw [hflags]
    exact hu
  · rw [modify_self]
  · rintro rfl
    rw [hflags]
    exact hex
  · rw [hflags]
    simp [hex']
  · simp
  · simp
  · exact hok'
  · simp
  · rw [hflags, modify_self, modify_vfs]
    exact hs.forking who
  · intro d hd _
    by_cases hdw : d = who
    · subst hdw
      refine hok'.settled ?_
      rw [hflags]
      exact hex
    · have hset := hs.settled d hd (Set.notMem_empty d)
      have hsame := modify_of_ne s (fun m : Mproc n =>
        { m with mp_flags := { m.mp_flags with WAITING := true }, mp_wpid := pidarg }) hdw
      constructor
      · rw [Table.flags, hsame]
        exact hset.marked
      · rw [Table.flags, hsame]
        exact hset.told
      · rw [Table.flags, hsame]
        exact hset.traced
      · rw [Table.flags, hsame]
        intro hz
        by_cases hp : (s.mproc d).mp_parent = who
        · rw [hp]
          exact hmiss d hd (hscan d hd (Or.inl ⟨hz, hp⟩)) _ (by simp)
        · rw [modify_of_ne s _ hp]
          exact hset.parent hz
      · rw [Table.flags, hsame]
        intro htz t ht
        by_cases htw : t = who
        · subst htw
          exact hmiss d hd (hscan d hd (Or.inr ⟨htz, ht⟩)) _ (by simp)
        · rw [modify_of_ne s _ htw]
          exact hset.tracer htz t ht

/-- Nothing to be reported in this slot. -/
def Passed (s : Table n) (who : Fin n) (pidarg : Int) (c : Fin n) : Prop :=
  (s.flags c).IN_USE = true →
    ((s.flags c).ZOMBIE = true ∧ (s.mproc c).mp_parent = who ∨
      (s.flags c).TRACE_ZOMBIE = true ∧ (s.mproc c).mp_tracer = some who) →
    qualifies pidarg (s.mproc c) = false

/-- A slot that the scan skips or counts only. -/
theorem passed_of_scan {pidarg : Int} (hs : Inv env ∅ ∅ s)
    (h : collectable who (s.mproc c) && qualifies pidarg (s.mproc c) = true →
      ¬ ((s.mproc c).mp_tracer = some who ∧ (s.mproc c).mp_flags.TRACE_ZOMBIE = true) ∧
        ¬ ((s.mproc c).mp_parent = who ∧ (s.mproc c).mp_flags.ZOMBIE = true)) :
    Passed s who pidarg c := by
  intro hu hpending
  have hok := hs.slot c hu
  have hu' : (s.mproc c).mp_flags.IN_USE = true := hu
  cases hq : qualifies pidarg (s.mproc c) with
  | false => rfl
  | true =>
      exfalso
      rcases hpending with ⟨hz, hp⟩ | ⟨htz, ht⟩
      · have htold := (hok.zombie hz).2.2
        refine (h ?_).2 ⟨hp, hz⟩
        simp [collectable, hu', htold, hp, hq]
      · rcases hok.trace_zombie htz with ⟨-, htold⟩
        have hz : (s.mproc c).mp_flags.ZOMBIE = false := by
          cases hz : (s.mproc c).mp_flags.ZOMBIE with
          | false => rfl
          | true =>
              have hno := (hok.zombie hz).2.1
              have htz' : (s.mproc c).mp_flags.TRACE_ZOMBIE = true := htz
              simp [htz'] at hno
        refine (h ?_).1 ⟨ht, htz⟩
        simp [collectable, hu', htold, ht, hz, hq]

theorem waitScan_ok (hs : Inv env ∅ ∅ s) (hwho : Caller s who) (pidarg : Int) (nohang : Bool) :
    ∀ (cs : List (Fin n)) (children : Nat), (∀ c, c ∈ cs ∨ Passed s who pidarg c) →
      ∃ r s', waitScan env who pidarg nohang cs children s = some (r, s') ∧ Inv env ∅ ∅ s'
  | [], children, hpassed => by
      unfold waitScan
      by_cases hchildren : children > 0
      · rw [if_pos hchildren]
        cases nohang with
        | true => exact ⟨_, s, rfl, hs⟩
        | false =>
            refine ⟨_, _, rfl, hs.wait hwho ?_⟩
            intro c
            rcases hpassed c with hin | hp
            · simp at hin
            · exact hp
      · rw [if_neg hchildren]
        exact ⟨_, s, rfl, hs⟩
  | c :: cs, children, hpassed => by
      have hnext : Passed s who pidarg c → ∀ d, d ∈ cs ∨ Passed s who pidarg d := by
        intro hp d
        rcases hpassed d with hin | hd
        · rcases List.mem_cons.1 hin with rfl | hin
          · exact Or.inr hp
          · exact Or.inl hin
        · exact Or.inr hd
      have hs' : Inv env ∅ (insert c ∅) s := hs.mono (Set.empty_subset _)
      unfold waitScan
      dsimp only
      cases hcol : collectable who (s.mproc c) && qualifies pidarg (s.mproc c) with
      | false =>
          simp only [Bool.not_false, if_true]
          exact waitScan_ok hs hwho pidarg nohang cs children (hnext (passed_of_scan hs (by simp [hcol])))
      | true =>
          have hu : (s.flags c).IN_USE = true := by
            simp only [collectable, Bool.and_eq_true] at hcol
            exact hcol.1.1.1
          simp only [Bool.not_true, Bool.false_eq_true, if_false]
          by_cases htrace : (s.mproc c).mp_tracer = some who ∧
              (s.mproc c).mp_flags.TRACE_ZOMBIE = true
          · rw [if_pos htrace]
            rcases tellTracer_ok hs' (Set.mem_insert c ∅) hu htrace.2 htrace.1 with
              ⟨s₁, htell, hs₁, -, hu₁, hz₁, -⟩
            rcases checkParent_settles hs₁ hu₁ hz₁ (Or.inl rfl) with ⟨s₂, hcheck, hs₂, -⟩
            refine ⟨.suspend, s₂, ?_, hs₂⟩
            rw [htell]
            simp only [Option.bind_some]
            rw [hcheck]
            rfl
          · rw [if_neg htrace]
            generalize (if (s.mproc c).mp_tracer = some who ∧
              (s.mproc c).mp_flags.TRACE_STOPPED = true then stopSignal env (s.mproc c) else none) = stop
            cases stop with
            | some i =>
                refine ⟨_, _, rfl, hs.tweak (Tweak.modify s c ?_)⟩
                constructor <;> simp
            | none =>
                dsimp only
                by_cases hchild : (s.mproc c).mp_parent = who ∧ (s.mproc c).mp_flags.ZOMBIE = true
                · rw [if_pos hchild]
                  rcases tellParent_ok hs' (Set.mem_insert c ∅) hu hchild.2 with
                    ⟨s₁, htell, hs₁, -, htold, -⟩
                  have hcall : (s₁.mproc c).mp_flags.VFS_CALL = (s₁.vfs c).isSome :=
                    (hs₁.slot c htold.in_use).vfs_call
                  rw [htell]
                  cases hv : s₁.vfs c with
                  | none =>
                      rw [hv] at hcall
                      rcases hs₁.cleanup htold.in_use htold.exiting hv with ⟨hinv, -⟩
                      refine ⟨.suspend, cleanup s₁ c, by simp [hcall], hinv.settle ?_⟩
                      intro hbad
                      exact absurd rfl (cleanup_ne hbad)
                  | some call =>
                      rw [hv] at hcall
                      refine ⟨.suspend, s₁, by simp [hcall], hs₁.settle ?_⟩
                      intro _
                      exact htold.settled (by simp [hv])
                · rw [if_neg hchild]
                  exact waitScan_ok hs hwho pidarg nohang cs (children + 1)
                    (hnext (passed_of_scan hs fun _ => ⟨htrace, hchild⟩))

/-! ## Whole runs -/

/-- Every call that may come in is answered, and the table is in order afterwards. -/
theorem step_ok (hs : Inv env ∅ ∅ s) {call : Call n} (h : Allowed env s call) :
    ∃ s', step env s call = some s' ∧ Inv env ∅ ∅ s' := by
  have hlive : s.live < n + 1 := Nat.lt_succ_of_le (live_le s)
  cases call with
  | fork who vmFork newPid =>
      rcases doFork_ok hs h.1 h.2 with ⟨r, s', heq, hs'⟩
      exact ⟨s', by simp [step, heq], hs'⟩
  | srvFork who vmFork newPid uid =>
      rcases doSrvFork_ok hs h.1 h.2 uid with ⟨r, s', heq, hs'⟩
      exact ⟨s', by simp [step, heq], hs'⟩
  | exit who status =>
      have hwho : Caller s who := h
      cases hpriv : (s.mproc who).mp_flags.PRIV_PROC with
      | true =>
          exact ⟨s.record (.kills (s.mproc who).mp_endpoint), by simp [step, doExit, hpriv],
            hs.tweak (Tweak.record s _)⟩
      | false =>
          have hserver : (s.mproc who).mp_endpoint ≠ env.VFS_PROC_NR := by
            intro he
            have hbad := (hs.slot who hwho.present.in_use).server he
            simp [hpriv] at hbad
          rcases exitProc_ok env who (n + 1) ∅ ∅ s who status false hs hwho.2.1 hwho.2.2.2 hserver
            hlive with ⟨s', heq, hs', -⟩
          exact ⟨s'.record (.printsExited (s'.mproc who).mp_pid),
            by simp [step, doExit, hpriv, heq], hs'.tweak (Tweak.record s' _)⟩
  | exitProc who c status dumpCore =>
      rcases exitProc_ok env who (n + 1) ∅ ∅ s c status dumpCore hs h.1 h.2.1 h.2.2 hlive with
        ⟨s', heq, hs', -⟩
      exact ⟨s', heq, hs'⟩
  | waitpid who pid nohang =>
      rcases waitScan_ok hs h (if pid = 0 then -(s.mproc who).mp_procgrp else pid) nohang
        (List.finRange n) 0 (fun c => Or.inl (List.mem_finRange c)) with ⟨r, s', heq, hs'⟩
      exact ⟨s', by simp [step, doWaitpid, heq], hs'⟩
  | vfsReply c dumped =>
      rcases vfsReply_ok hs h dumped with ⟨s', heq, hs'⟩
      exact ⟨s', heq, hs'⟩
  | other s' => exact ⟨s', rfl, hs.foreign h⟩

/-- The table after the boot: no process is exiting, traced or waiting for VFS, and `mp_parent` always
points to a valid slot. -/
structure Boot (env : Env n) (s : Table n) : Prop where
  count : s.procs_in_use = (s.used.card : Int)
  free : ∀ c, (s.flags c).IN_USE = false → s.flags c = {}
  flags : ∀ c, (s.flags c).IN_USE = true →
    s.flags c = { IN_USE := true, PRIV_PROC := (s.flags c).PRIV_PROC }
  idle : ∀ c, s.vfs c = none
  init : (s.flags env.INIT_PROC_NR).IN_USE = true ∧
    (s.mproc env.INIT_PROC_NR).mp_endpoint = env.INIT_PROC_NR.val
  endpoint : ∀ c, (s.flags c).IN_USE = true → (s.mproc c).mp_endpoint = env.INIT_PROC_NR.val →
    c = env.INIT_PROC_NR
  server : ∀ c, (s.flags c).IN_USE = true → (s.mproc c).mp_endpoint = env.VFS_PROC_NR →
    (s.flags c).PRIV_PROC = true
  parent : ∀ c, (s.flags c).IN_USE = true →
    (s.mproc c).mp_parent.val ≠ 0 ∧ (s.flags (s.mproc c).mp_parent).IN_USE = true
  tracer : ∀ c, (s.mproc c).mp_tracer = none
  scheduler : ∀ c, (s.flags c).PRIV_PROC = true → (s.mproc c).mp_scheduler = none
  pid : ∀ c, (s.flags c).IN_USE = true → 0 < (s.mproc c).mp_pid
  procgrp : ∀ c, (s.flags c).IN_USE = true → 0 ≤ (s.mproc c).mp_procgrp
  history : s.history = []

theorem Boot.inv (h : Boot env s) : Inv env ∅ ∅ s := by
  have hbits : ∀ c, (s.flags c).IN_USE = true → (s.flags c).EXITING = false ∧
      (s.flags c).ZOMBIE = false ∧ (s.flags c).TRACE_ZOMBIE = false ∧
      (s.flags c).TOLD_PARENT = false ∧ (s.flags c).VFS_CALL = false ∧
      (s.flags c).TRACE_EXIT = false := by
    intro c hc
    rw [h.flags c hc]
    exact ⟨rfl, rfl, rfl, rfl, rfl, rfl⟩
  have hok : ∀ c, (s.flags c).IN_USE = true → SlotOk env (s.mproc c) (s.vfs c) := by
    intro c hc
    rcases hbits c hc with ⟨hex, hz, htz, htold, hcall, hte⟩
    have hidle := h.idle c
    rw [Table.flags] at hex hz htz htold hcall hte
    constructor
    · simp [hz]
    · simp [htz]
    · simp [htold]
    · simp [hex]
    · simp [hcall, hidle]
    · simp [hidle]
    · simp [hidle]
    · simp [hidle]
    · simp [hte]
    · exact h.scheduler c
    · exact h.server c hc
    · exact h.pid c hc
    · exact h.procgrp c hc
  refine ⟨h.count, ?_, ⟨alive_iff.2 ⟨h.init.1, (hbits _ h.init.1).1⟩, h.init.2⟩, h.endpoint, ?_, ?_, hok,
    ?_, ?_, ?_⟩
  · intro c hc
    rw [h.free c hc]
    exact ⟨h.idle c, rfl⟩
  · intro c hc
    rcases h.parent c hc with ⟨hpos, hu⟩
    refine ⟨hpos, hu, ?_⟩
    intro hbad
    simp [(hbits _ hu).1] at hbad
  · intro c t _ ht
    simp [h.tracer c] at ht
  · simp
  · simp [h.idle]
  · intro c hc _
    exact (hok c hc).settled (hbits c hc).1

theorem run_ok (hs : Inv env ∅ ∅ s) {calls : List (Call n)}
    (hcalls : Guarded (step env) (Allowed env) s calls) :
    ∃ s', calls.foldlM (step env) s = some s' ∧ Inv env ∅ ∅ s' := by
  induction calls generalizing s with
  | nil => exact ⟨s, rfl, hs⟩
  | cons call calls ih =>
      rcases step_ok hs hcalls.1 with ⟨s₁, hstep, hs₁⟩
      rcases ih hs₁ (hcalls.2 s₁ hstep) with ⟨s', hrun, hs'⟩
      exact ⟨s', foldlM_cons_eq_some.2 ⟨s₁, hstep, hrun⟩, hs'⟩

/-! ## A small system

INIT is in slot 1, and slot 2 is a server.  Signals are ignored, but for those that kill. -/

theorem Foreign.refl (s : Table n) : Foreign s s := by
  refine ⟨rfl, rfl, rfl, rfl, fun _ _ => ⟨rfl, rfl⟩, ?_⟩
  intro c _
  constructor <;> simp
  exact fun _ h => Or.inl h

def smallEnv : Env 4 where
  INIT_PROC_NR := 1
  VFS_PROC_NR := 2
  RS_PROC_NR := 7
  SCHED_PROC_NR := 8
  NSIG := 26
  times := fun _ _ => (0, 0)
  fatal := fun s c sig =>
    sig == .SIGKILL && !(s.mproc c).mp_flags.VFS_CALL && (s.mproc c).mp_endpoint != 2
  notice := fun s _ _ => s
  selects := fun _ _ _ => false
  init_pos := by decide
  fatal_idle := by
    intro s c sig h
    simp only [Bool.and_eq_true, Bool.not_eq_true', bne_iff_ne] at h
    exact ⟨h.1.2, h.2⟩
  notice_foreign := fun s _ _ _ => Foreign.refl s

def smallSlot (flags : Flags) (pid : Int) (endpoint : Nat) : Mproc 4 where
  mp_flags := flags
  mp_parent := 1
  mp_tracer := none
  TO_TRACEFORK := false
  mp_sigtrace := ∅
  mp_pid := pid
  mp_procgrp := 1
  mp_wpid := 0
  mp_endpoint := endpoint
  mp_realuid := 0
  mp_effuid := 0
  mp_scheduler := none
  mp_child_utime := 0
  mp_child_stime := 0
  mp_exitstatus := 0
  mp_sigstatus := 0

def smallTable : Table 4 where
  mproc := fun c =>
    if c = 1 then smallSlot { IN_USE := true } 1 1
    else if c = 2 then smallSlot { IN_USE := true, PRIV_PROC := true } 3 2
    else smallSlot {} 0 0
  procs_in_use := 2
  forkNext := 2
  srvNext := 0
  vfs := fun _ => none
  history := []

theorem boot_smallTable : Boot smallEnv smallTable := by
  constructor <;> decide

/-- INIT forks, the child exits and INIT collects it. -/
def smallCalls : List (Call 4) :=
  [.fork 1 (.ok 103) 9, .vfsReply 3 false, .exit 3 5, .waitpid 1 (-1) false, .vfsReply 3 false]

def smallAfter (k : Nat) : Table 4 :=
  ((smallCalls.take k).foldlM (step smallEnv) smallTable).getD smallTable

theorem guarded_fork : Guarded (step smallEnv) (Allowed smallEnv) smallTable (smallCalls.take 1) := by
  refine Guarded.cons (smallAfter 1) rfl ⟨⟨by decide, by decide, by decide, rfl⟩, by decide, ?_⟩ trivial
  intro e h
  cases h
  decide

theorem guarded_exit : Guarded (step smallEnv) (Allowed smallEnv) smallTable (smallCalls.take 3) := by
  refine Guarded.cons (smallAfter 1) rfl guarded_fork.1
    (Guarded.cons (smallAfter 2) rfl ?_ (Guarded.cons (smallAfter 3) rfl ?_ trivial))
  · change (smallAfter 1).vfs 3 ≠ none
    decide +kernel
  · exact ⟨by decide, by decide +kernel, by decide +kernel, by decide +kernel⟩

theorem guarded_small : Guarded (step smallEnv) (Allowed smallEnv) smallTable smallCalls := by
  have hexit := guarded_exit
  refine Guarded.cons (smallAfter 1) rfl hexit.1 (Guarded.cons (smallAfter 2) rfl
    (hexit.2 (smallAfter 1) rfl).1 (Guarded.cons (smallAfter 3) rfl
    ((hexit.2 (smallAfter 1) rfl).2 (smallAfter 2) rfl).1 (Guarded.cons (smallAfter 4) rfl ?_
    (Guarded.cons (smallAfter 5) rfl ?_ trivial))))
  · exact ⟨by decide, by decide +kernel, by decide +kernel, by decide +kernel⟩
  · change (smallAfter 4).vfs 3 ≠ none
    decide +kernel

/-! ## Properties of every run -/

/-- No run reaches a panic of the process manager.  The counter of processes is exact, and the parent
and the tracer of a process are never gone or exiting. -/
theorem run_never_panics (env : Env n) {s₀ : Table n} (hboot : Boot env s₀) {calls : List (Call n)}
    (hcalls : Guarded (step env) (Allowed env) s₀ calls) :
    ∃ s, calls.foldlM (step env) s₀ = some s ∧ s.procs_in_use = (s.used.card : Int) ∧
      ∀ c, (s.flags c).IN_USE = true → (s.mproc (s.mproc c).mp_parent).alive = true ∧
        ∀ t, (s.mproc c).mp_tracer = some t → (s.mproc t).alive = true := by
  rcases run_ok hboot.inv hcalls with ⟨s, hrun, hs⟩
  have halive : ∀ p, Present ∅ s p → (s.mproc p).alive = true := by
    intro p hp
    refine alive_iff.2 ⟨hp.in_use, ?_⟩
    cases hex : (s.mproc p).mp_flags.EXITING with
    | false => rfl
    | true => exact absurd (hp.exiting hex) (Set.notMem_empty p)
  refine ⟨s, hrun, hs.count, ?_⟩
  intro c hc
  exact ⟨halive _ (hs.parent c hc), fun t ht => halive t (hs.tracer c t hc ht)⟩

theorem run_never_panics_small :
    ∃ s, smallCalls.foldlM (step smallEnv) smallTable = some s ∧
      s.procs_in_use = (s.used.card : Int) ∧
      ∀ c, (s.flags c).IN_USE = true → (s.mproc (s.mproc c).mp_parent).alive = true ∧
        ∀ t, (s.mproc c).mp_tracer = some t → (s.mproc t).alive = true :=
  run_never_panics smallEnv boot_smallTable guarded_small

/-- No exit is forgotten.  A process that is exiting waits for VFS, for its tracer or for its parent,
and neither of them sleeps in a `waitpid` that its report would end. -/
theorem run_no_lost_wakeup (env : Env n) {s₀ s : Table n} (hboot : Boot env s₀) {calls : List (Call n)}
    (hcalls : Guarded (step env) (Allowed env) s₀ calls) (hrun : calls.foldlM (step env) s₀ = some s)
    {c : Fin n} (hu : (s.flags c).IN_USE = true) (hex : (s.flags c).EXITING = true) :
    (s.vfs c ≠ none ∨ (s.flags c).ZOMBIE = true ∨ (s.flags c).TRACE_ZOMBIE = true) ∧
      ((s.flags c).ZOMBIE = true →
        waitTest (s.mproc (s.mproc c).mp_parent) (s.mproc c) = false) ∧
      ((s.flags c).TRACE_ZOMBIE = true → ∃ t, (s.mproc c).mp_tracer = some t ∧
        waitTest (s.mproc t) (s.mproc c) = false) := by
  rcases run_ok hboot.inv hcalls with ⟨s', hrun', hs⟩
  rw [hrun] at hrun'
  cases hrun'
  have hset := hs.settled c hu (Set.notMem_empty c)
  refine ⟨?_, hset.parent, ?_⟩
  · rcases hset.marked hex with h | h | h | h
    · exact Or.inr (Or.inl h)
    · exact Or.inr (Or.inr h)
    · exact Or.inl (hset.told h)
    · exact Or.inl (by simp [h])
  · intro htz
    rcases Option.ne_none_iff_exists'.1 (hset.traced htz) with ⟨t, ht⟩
    exact ⟨t, ht, hset.tracer htz t ht⟩

theorem run_no_lost_wakeup_small :
    waitTest ((smallAfter 3).mproc ((smallAfter 3).mproc 3).mp_parent) ((smallAfter 3).mproc 3) =
      false :=
  (run_no_lost_wakeup smallEnv boot_smallTable guarded_exit (s := smallAfter 3) (c := 3) rfl
    (by decide +kernel) (by decide +kernel)).2.1 (by decide +kernel)

/-- While VFS has a FORK request without the mark `NEW_PARENT`, the parent of the child is still the
process that called `fork`, so the answer cannot go to another one. -/
theorem run_fork_reply (env : Env n) {s₀ s : Table n} (hboot : Boot env s₀) {calls : List (Call n)}
    (hcalls : Guarded (step env) (Allowed env) s₀ calls) (hrun : calls.foldlM (step env) s₀ = some s)
    {c : Fin n} {e : Nat} {pid : Int} (hfork : s.vfs c = some (.fork e pid))
    (hnew : (s.flags c).NEW_PARENT = false) :
    (s.mproc (s.mproc c).mp_parent).mp_endpoint = e ∧
      (s.mproc (s.mproc c).mp_parent).alive = true := by
  rcases run_ok hboot.inv hcalls with ⟨s', hrun', hs⟩
  rw [hrun] at hrun'
  cases hrun'
  have hu : (s.flags c).IN_USE = true := by
    cases hu : (s.flags c).IN_USE with
    | true => rfl
    | false => simp [(hs.free c hu).1] at hfork
  have hparent := hs.parent c hu
  constructor
  · rcases hs.forking c e pid hfork with h | h
    · simp [hnew] at h
    · exact h
  · refine alive_iff.2 ⟨hparent.in_use, ?_⟩
    cases hex : (s.mproc (s.mproc c).mp_parent).mp_flags.EXITING with
    | false => rfl
    | true => exact absurd (hparent.exiting hex) (Set.notMem_empty _)

theorem run_fork_reply_small :
    ((smallAfter 1).mproc ((smallAfter 1).mproc 3).mp_parent).mp_endpoint = 1 ∧
      ((smallAfter 1).mproc ((smallAfter 1).mproc 3).mp_parent).alive = true :=
  run_fork_reply smallEnv boot_smallTable guarded_fork (s := smallAfter 1) (c := 3) (e := 1)
    rfl (show (smallAfter 1).vfs 3 = some (.fork 1 9) by decide +kernel) (by decide +kernel)

end Pm
end OsLab
