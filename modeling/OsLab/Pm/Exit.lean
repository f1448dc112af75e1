import OsLab.Pm.Reports

/-!
# Exit — the end of a process and the exits it causes

`exit_proc` gives the children of a process to INIT and kills the processes that it traced, which calls
`exit_proc` again.  Each of these calls finds one process less that is not exiting, so the cascade ends,
and it keeps the invariant at every depth.
-/

namespace OsLab
namespace Pm

variable {n : Nat} {env : Env n} {D X : Set (Fin n)} {s s' : Table n} {c dead : Fin n}

/-! ## The number of processes that are not exiting -/

def Table.live (s : Table n) : Nat :=
  (Finset.univ.filter fun c => (s.mproc c).alive = true).card

theorem Later.live_le (h : Later env s s') : s'.live ≤ s.live := by
  refine Finset.card_le_card ?_
  intro d hd
  rw [Finset.mem_filter] at hd ⊢
  exact ⟨hd.1, h.alive hd.2⟩

theorem Later.live_lt (h : Later env s s') (hc : (s.mproc c).alive = true)
    (hc' : (s'.mproc c).alive = false) : s'.live < s.live := by
  refine Finset.card_lt_card ?_
  constructor
  · intro d hd
    rw [Finset.mem_filter] at hd ⊢
    exact ⟨hd.1, h.alive hd.2⟩
  · intro hsub
    have hmem := hsub (Finset.mem_filter.2 ⟨Finset.mem_univ c, hc⟩)
    rw [Finset.mem_filter, hc'] at hmem
    simp at hmem

theorem live_le (s : Table n) : s.live ≤ n := by
  calc s.live ≤ (Finset.univ : Finset (Fin n)).card := Finset.card_filter_le _ _
    _ = n := by simp

/-! ## Signals -/

/-- What the callers of `exit_proc` rely on, for tables with fewer than `N` processes that are not
exiting. -/
def ExitOk (env : Env n) (N : Nat) (exit : Table n → Fin n → Option (Table n)) : Prop :=
  ∀ (D X : Set (Fin n)) (s : Table n) (c : Fin n), Inv env D X s → (s.mproc c).alive = true →
    s.vfs c = none → (s.mproc c).mp_endpoint ≠ env.VFS_PROC_NR → s.live < N →
    ∃ s', exit s c = some s' ∧ Inv env D X s' ∧ Later env s s'

theorem Inv.vfs_eq_none (hs : Inv env D X s) (hu : (s.flags c).IN_USE = true)
    (hcall : (s.mproc c).mp_flags.VFS_CALL = false) : s.vfs c = none := by
  have hcall' := (hs.slot c hu).vfs_call
  rw [hcall] at hcall'
  cases hv : s.vfs c with
  | none => rfl
  | some call => simp [hv] at hcall'

theorem sigProc_ok {N : Nat} {exit : Table n → Fin n → Option (Table n)}
    (hexit : ExitOk env N exit) (hs : Inv env D X s) (ha : (s.mproc c).alive = true)
    (hlive : s.live < N) (sig : Signal) :
    ∃ s', sigProc env exit s c sig = some s' ∧ Inv env D X s' ∧ Later env s s' := by
  unfold sigProc
  cases hfatal : env.fatal s c sig with
  | false =>
      have hfor := env.notice_foreign s c sig ha
      refine ⟨_, ?_, hs.foreign hfor, hfor.later⟩
      simp [notify, ha]
  | true =>
      rcases env.fatal_idle s c sig hfatal with ⟨hcall, hserver⟩
      have htweak : Tweak s (s.modify c fun m => { m with mp_sigstatus := sig.number }) := by
        refine Tweak.modify s c ?_
        constructor <;> simp
      have hlater : Later env s _ := htweak.later
      have hv := hs.vfs_eq_none (alive_iff.1 ha).1 hcall
      rcases hexit D X _ c (hs.tweak htweak) ((htweak.slot c).alive.trans ha) hv
        (by rw [(htweak.slot c).endpoint]; exact hserver) (hlater.live_le.trans_lt hlive) with
        ⟨s', hs', hinv, hlater'⟩
      refine ⟨s', ?_, hinv, hlater.trans hlater'⟩
      simpa [ha] using hs'

/-! ## The death of a tracer -/

theorem Inv.untrace (hs : Inv env D X s) (hu : (s.flags c).IN_USE = true) :
    Inv env D (insert c X) (s.modify c untrace) ∧ Later env s (s.modify c untrace) := by
  have hok := hs.slot c hu
  have hchange : Change s (s.modify c Pm.untrace) c :=
    change_modify hu rfl rfl (fun h => h) rfl
  have hflags : (s.modify c Pm.untrace).flags c = { s.flags c with TRACE_EXIT := false } := by
    simp [Table.flags, Pm.untrace]
  constructor
  · refine hs.change hchange (fun _ _ => Iff.rfl) (fun _ _ hin => Or.inr hin) ?_ ?_ ?_ ?_ ?_ ?_ ?_ ?_
    · rintro rfl
      rw [hflags]
      exact (alive_iff.1 hs.init.1).2
    · rw [hflags]
      intro hex
      exact Or.inl ⟨hex, id⟩
    · simp [Pm.untrace]
    · simp [Pm.untrace]
    · simp only [modify_self, modify_vfs, Pm.untrace]
      exact { hok with trace_exit := fun h => by simp at h }
    · intro hin
      rw [hflags]
      exact (hs.dying c hin).2
    · simp only [modify_vfs, hflags, modify_self, Pm.untrace]
      exact hs.forking c
    · intro hx
      exact absurd (Set.mem_insert c X) hx
  · refine hchange.later ?_ ?_ ?_ ?_
    · rw [hflags]
      exact id
    · simp [Pm.untrace]
    · simp [Pm.untrace]
    · intro _ _
      rfl

/-- A process that was not waiting for its tracer does not miss it. -/
theorem Inv.untrace_settled (hs : Inv env D X s) (hu : (s.flags c).IN_USE = true)
    (htz : (s.flags c).TRACE_ZOMBIE = false) : Inv env D X (s.modify c Pm.untrace) := by
  have hflags : (s.modify c Pm.untrace).flags c = { s.flags c with TRACE_EXIT := false } := by
    simp [Table.flags, Pm.untrace]
  have hinv := (hs.untrace hu).1
  by_cases hX : c ∈ X
  · rw [Set.insert_eq_of_mem hX] at hinv
    exact hinv
  · refine hinv.settle ?_
    intro _
    have hset := hs.settled c hu hX
    constructor
    · rw [hflags]
      exact hset.marked
    · rw [hflags]
      exact hset.told
    · simp [hflags, htz]
    · rw [hflags]
      intro hz
      refine waitTest_mono ?_ ?_ ?_ ?_ (hset.parent hz)
      · by_cases hp : (s.mproc c).mp_parent = c
        · simp [hp, Pm.untrace]
        · simp [Pm.untrace, modify_of_ne s Pm.untrace hp]
      · by_cases hp : (s.mproc c).mp_parent = c
        · simp [hp, Pm.untrace]
        · simp [Pm.untrace, modify_of_ne s Pm.untrace hp]
      · simp [Pm.untrace]
      · simp [Pm.untrace]
    · simp [hflags, htz]

theorem tracerDied_ok {N : Nat} {exit : Table n → Fin n → Option (Table n)}
    (hexit : ExitOk env N exit) (hs : Inv env D X s) (hu : (s.flags c).IN_USE = true)
    (hlive : s.live < N) :
    ∃ s', tracerDied env exit s c = some s' ∧ Inv env D X s' ∧
      Later env (s.modify c untrace) s' := by
  have hflags : ((s.modify c untrace).mproc c).mp_flags = { s.flags c with TRACE_EXIT := false } := by
    simp [untrace]
  rcases hs.untrace hu with ⟨hs₁, hlater₁⟩
  have hu₁ : ((s.modify c untrace).flags c).IN_USE = true := by
    rw [Table.flags, hflags]
    exact hu
  unfold tracerDied
  dsimp only
  cases hex : (s.flags c).EXITING with
  | false =>
      have htz : (s.flags c).TRACE_ZOMBIE = false := by
        cases htz : (s.flags c).TRACE_ZOMBIE with
        | false => rfl
        | true =>
            have hbad : (s.flags c).EXITING = true := ((hs.slot c hu).trace_zombie htz).1
            simp [hex] at hbad
      have ha : ((s.modify c untrace).mproc c).alive = true := by
        rw [alive_iff, hflags]
        exact ⟨hu, hex⟩
      rcases sigProc_ok hexit (hs.untrace_settled hu htz) ha (hlater₁.live_le.trans_lt hlive)
        .SIGKILL with ⟨s', hs', hinv, hlater⟩
      refine ⟨s', ?_, hinv, hlater⟩
      rw [hflags]
      simpa [hex] using hs'
  | true =>
      cases htz : (s.flags c).TRACE_ZOMBIE with
      | false =>
          refine ⟨s.modify c untrace, ?_, hs.untrace_settled hu htz, Later.refl env _⟩
          rw [hflags]
          simp [hex, htz]
      | true =>
          -- The parent hears of the exit instead.
          have htold : (s.flags c).TOLD_PARENT = false := ((hs.slot c hu).trace_zombie htz).2
          have hdump : (s.modify c untrace).vfs c ≠ some .dumpcore := by
            intro hdump
            have hno : (s.flags c).TRACE_ZOMBIE = false := ((hs.slot c hu).dumpcore hdump).2.1
            simp [htz] at hno
          have hbits : (s.modify c untrace).setFlags c
                (fun f => { f with TRACE_ZOMBIE := false, ZOMBIE := true }) =
              (s.modify c untrace).setFlags c (exitBits true false false) := by
            refine setFlags_congr ?_
            rw [Table.flags, hflags]
            simp [exitBits, htold]
          have hex₁ : ((s.modify c untrace).flags c).EXITING = true := by
            rw [Table.flags, hflags]
            exact hex
          rcases hs₁.setExitBits true false false (Set.mem_insert c X) hu₁ hex₁ hdump (by simp)
            (by simp) with ⟨hs₂, hlater₂⟩
          rcases checkParent_settles hs₂ (by rw [setFlags_self]; exact hu₁)
            (by rw [setFlags_self]; rfl) (Or.inl rfl) with ⟨s', hcheck, hs', hlater⟩
          refine ⟨s', ?_, hs', hlater₂.trans hlater⟩
          rw [← hbits] at hcheck
          rw [hflags]
          simpa [hex, htz] using hcheck

/-! ## Children of an exiting process -/

theorem Inv.orphan (hs : Inv env D X s) (hu : (s.flags c).IN_USE = true) :
    Inv env D (insert c X) (s.modify c (orphan env)) ∧ Later env s (s.modify c (orphan env)) := by
  have hok := hs.slot c hu
  have hchange : Change s (s.modify c (Pm.orphan env)) c :=
    change_modify hu rfl rfl (fun h => h) rfl
  have hflags : (s.modify c (Pm.orphan env)).flags c =
      { s.flags c with NEW_PARENT := (s.flags c).NEW_PARENT || (s.flags c).VFS_CALL } := by
    simp [Table.flags, Pm.orphan]
  constructor
  · refine hs.change hchange (fun _ _ => Iff.rfl) (fun _ _ hin => Or.inr hin) ?_ ?_ ?_ ?_ ?_ ?_ ?_ ?_
    · rintro rfl
      rw [hflags]
      exact (alive_iff.1 hs.init.1).2
    · rw [hflags]
      intro hex
      exact Or.inl ⟨hex, id⟩
    · simp [Pm.orphan]
    · simp [Pm.orphan]
    · simp only [modify_self, modify_vfs, Pm.orphan]
      exact { hok with }
    · intro hin
      rw [hflags]
      exact (hs.dying c hin).2
    · -- A request that VFS still has is marked.
      intro e pid hfork
      have hcall : (s.flags c).VFS_CALL = true := by
        have hcall := hok.vfs_call
        rw [modify_vfs] at hfork
        rw [hfork] at hcall
        exact hcall
      refine Or.inl ?_
      rw [hflags]
      simp [hcall]
    · intro hx
      exact absurd (Set.mem_insert c X) hx
  · refine hchange.later ?_ ?_ ?_ ?_
    · rw [hflags]
      exact id
    · simp [Pm.orphan]
    · simp [Pm.orphan]
    · intro _ _
      rfl

/-- Only zombies have to be reported to the new parent. -/
theorem Inv.orphan_settled (hs : Inv env D X s) (hu : (s.flags c).IN_USE = true)
    (hz : (s.flags c).ZOMBIE = false) : Inv env D X (s.modify c (Pm.orphan env)) := by
  have hflags : (s.modify c (Pm.orphan env)).flags c =
      { s.flags c with NEW_PARENT := (s.flags c).NEW_PARENT || (s.flags c).VFS_CALL } := by
    simp [Table.flags, Pm.orphan]
  have hinv := (hs.orphan hu).1
  by_cases hX : c ∈ X
  · rw [Set.insert_eq_of_mem hX] at hinv
    exact hinv
  · refine hinv.settle ?_
    intro _
    have hset := hs.settled c hu hX
    constructor
    · rw [hflags]
      exact hset.marked
    · rw [hflags]
      exact hset.told
    · rw [hflags]
      simpa [Pm.orphan] using hset.traced
    · simp [hflags, hz]
    · rw [hflags]
      intro htz t ht
      have ht' : (s.mproc c).mp_tracer = some t := by
        simpa [Pm.orphan] using ht
      refine waitTest_mono ?_ ?_ ?_ ?_ (hset.tracer htz t ht')
      · by_cases htc : t = c
        · simp [htc, Pm.orphan]
        · simp [modify_of_ne s _ htc]
      · by_cases htc : t = c
        · simp [htc, Pm.orphan]
        · simp [modify_of_ne s _ htc]
      · simp [Pm.orphan]
      · simp [Pm.orphan]

theorem adopt_ok (hs : Inv env D X s) (hu : (s.flags c).IN_USE = true) :
    ∃ s', adopt env s c = some s' ∧ Inv env D X s' ∧ Later env (s.modify c (orphan env)) s' := by
  have hflags : ((s.modify c (orphan env)).mproc c).mp_flags.ZOMBIE = (s.flags c).ZOMBIE := by
    simp [orphan]
  unfold adopt
  dsimp only
  rw [hflags]
  cases hz : (s.flags c).ZOMBIE with
  | false => exact ⟨_, by simp, hs.orphan_settled hu hz, Later.refl env _⟩
  | true =>
      have hu₁ : ((s.modify c (orphan env)).flags c).IN_USE = true := by
        simpa [Table.flags, orphan] using hu
      rcases checkParent_settles (hs.orphan hu).1 hu₁ (hflags.trans hz) (Or.inl rfl) with
        ⟨s', hcheck, hs', hlater⟩
      exact ⟨s', by simpa using hcheck, hs', hlater⟩

/-- The slot was released in the meantime: what happens to its `mp_parent` does not matter. -/
theorem adopt_free (hs : Inv env D X s) (hu : (s.flags c).IN_USE = false) :
    ∃ s', adopt env s c = some s' ∧ Inv env D X s' ∧ Later env s s' ∧
      (s'.flags c).IN_USE = false := by
  rcases hs.free c hu with ⟨hv, hz⟩
  have hflags : (s.modify c (orphan env)).flags c =
      { s.flags c with NEW_PARENT := (s.flags c).NEW_PARENT || (s.flags c).VFS_CALL } := by
    simp [Table.flags, orphan]
  have huse : ∀ d, ((s.modify c (orphan env)).flags d).IN_USE = (s.flags d).IN_USE := by
    intro d
    by_cases hd : d = c
    · rw [hd, hflags]
    · rw [Table.flags, modify_of_ne s _ hd]
  have hsame : ∀ d, ((s.modify c (orphan env)).flags d).IN_USE = true →
      (s.modify c (orphan env)).mproc d = s.mproc d := by
    intro d hd
    refine modify_of_ne s _ ?_
    rintro rfl
    rw [huse, hu] at hd
    simp at hd
  refine ⟨s.modify c (orphan env), ?_, ?_, ?_, ?_⟩
  · have hz' : (orphan env (s.mproc c)).mp_flags.ZOMBIE = false := hz
    simp [adopt, hz']
  · refine hs.without (fun d hd => modify_of_ne s _ hd) (fun _ _ => rfl) ?_ ((huse c).trans hu) hv
      ?_ ?_ ?_ ?_
    · rw [modify_procs, hs.count]
      simp only [Table.used, huse]
    · rw [hflags]
      exact hz
    · rintro p hp rfl
      have hbad := hp.in_use
      simp [hu] at hbad
    · intro hin
      have hbad := (hs.dying c hin).1
      simp [hu] at hbad
    · rintro rfl
      have hbad := (alive_iff.1 hs.init.1).1
      rw [Table.flags, hbad] at hu
      simp at hu
  · constructor
    · intro d hd
      rw [huse] at hd
      exact hd
    · intro d hd
      rw [Table.flags, Table.flags, hsame d hd]
      exact id
    · intro d hd
      rw [hsame d hd]
      exact Or.inl rfl
    · intro d t hd ht
      rw [hsame d hd] at ht
      exact Or.inl ht
    · intro d hd _ _
      rw [huse]
      exact ⟨hd, rfl⟩
  · rw [huse]
    exact hu

/-- Nobody points to `dead` from the slot `c`. -/
def Unlinked (s : Table n) (dead c : Fin n) : Prop :=
  (s.flags c).IN_USE = true → (s.mproc c).mp_parent ≠ dead ∧ (s.mproc c).mp_tracer ≠ some dead

theorem Unlinked.later (h : Unlinked s dead c) (hl : Later env s s')
    (hinit : dead ≠ env.INIT_PROC_NR) (hdead : (s.mproc dead).alive = false) :
    Unlinked s' dead c := by
  intro hu
  rcases h (hl.in_use c hu) with ⟨hparent, htracer⟩
  constructor
  · rcases hl.parent c hu with heq | heq
    · rw [heq]
      exact hparent
    · rw [heq]
      exact hinit.symm
  · intro ht
    rcases hl.tracer c dead hu ht with hold | halive
    · exact htracer hold
    · simp [hdead] at halive

/-- One turn of the loop. -/
theorem disinherit_ok {N : Nat} {exit : Table n → Fin n → Option (Table n)}
    (hexit : ExitOk env N exit) (hs : Inv env D X s) (hdead : dead ∈ D) (hlive : s.live < N)
    (c : Fin n) :
    ∃ s', disinherit env exit dead s c = some s' ∧ Inv env D X s' ∧ Later env s s' ∧
      Unlinked s' dead c := by
  rcases hs.dying dead hdead with ⟨hdu, hdex, hdv⟩
  have hinit := hs.ne_init_of_exiting hdex
  unfold disinherit
  cases hu : (s.flags c).IN_USE with
  | false =>
      refine ⟨s, by simp, hs, Later.refl env s, ?_⟩
      intro hbad
      simp [hu] at hbad
  | true =>
      -- First the tracer, then the parent.
      have hfirst : ∃ s₁, (if (s.mproc c).mp_tracer = some dead then tracerDied env exit s c
          else some s) = some s₁ ∧ Inv env D X s₁ ∧ Later env s s₁ ∧
          ((s₁.flags c).IN_USE = true → (s₁.mproc c).mp_tracer ≠ some dead) := by
        by_cases ht : (s.mproc c).mp_tracer = some dead
        · rcases tracerDied_ok hexit hs hu hlive with ⟨s₁, hdied, hs₁, hlater⟩
          refine ⟨s₁, by rw [if_pos ht]; exact hdied, hs₁, (hs.untrace hu).2.trans hlater, ?_⟩
          intro hu₁ ht₁
          rcases hlater.tracer c dead hu₁ ht₁ with hold | halive
          · simp [untrace] at hold
          · have hnot := (hs.untrace hu).2.alive halive
            rw [not_alive_of_exiting hdex] at hnot
            simp at hnot
        · exact ⟨s, by rw [if_neg ht], hs, Later.refl env s, fun _ => ht⟩
      rcases hfirst with ⟨s₁, hfirst, hs₁, hlater₁, htracer₁⟩
      rcases hlater₁.kept dead hdu hdex hdv with ⟨hdu₁, -⟩
      have hdex₁ := hlater₁.exiting dead hdu₁ hdex
      simp only [hfirst, Bool.not_true, Bool.false_eq_true, if_false, Option.bind_some]
      by_cases hp : (s₁.mproc c).mp_parent = dead
      · rw [if_pos hp]
        cases hu₁ : (s₁.flags c).IN_USE with
        | false =>
            rcases adopt_free hs₁ hu₁ with ⟨s', hs', hinv, hlater, hfree⟩
            refine ⟨s', hs', hinv, hlater₁.trans hlater, ?_⟩
            intro hbad
            simp [hfree] at hbad
        | true =>
            rcases adopt_ok hs₁ hu₁ with ⟨s', hs', hinv, hlater⟩
            have hlater₂ := (hs₁.orphan hu₁).2
            refine ⟨s', hs', hinv, hlater₁.trans (hlater₂.trans hlater), ?_⟩
            have hunl : Unlinked (s₁.modify c (orphan env)) dead c := by
              intro _
              simp only [modify_self, orphan]
              exact ⟨hinit.symm, htracer₁ hu₁⟩
            refine hunl.later hlater hinit ?_
            cases ha : ((s₁.modify c (orphan env)).mproc dead).alive with
            | false => rfl
            | true =>
                have hbad := hlater₂.alive ha
                rw [not_alive_of_exiting hdex₁] at hbad
                simp at hbad
      · rw [if_neg hp]
        exact ⟨s₁, rfl, hs₁, hlater₁, fun hu₁ => ⟨hp, htracer₁ hu₁⟩⟩

theorem disinherit_all {N : Nat} {exit : Table n → Fin n → Option (Table n)}
    (hexit : ExitOk env N exit) (hdead : dead ∈ D) :
    ∀ (cs : List (Fin n)) (s : Table n), Inv env D X s → s.live < N →
      ∃ s', cs.foldlM (disinherit env exit dead) s = some s' ∧ Inv env D X s' ∧ Later env s s' ∧
        ∀ c ∈ cs, Unlinked s' dead c
  | [], s, hs, _ => ⟨s, rfl, hs, Later.refl env s, by simp⟩
  | c :: cs, s, hs, hlive => by
      rcases disinherit_ok hexit hs hdead hlive c with ⟨s₁, hfirst, hs₁, hlater₁, hunl⟩
      rcases disinherit_all hexit hdead cs s₁ hs₁ (hlater₁.live_le.trans_lt hlive) with
        ⟨s', hrest, hs', hlater, hall⟩
      refine ⟨s', ?_, hs', hlater₁.trans hlater, ?_⟩
      · rw [List.foldlM_cons, hfirst]
        exact hrest
      · intro d hd
        rcases List.mem_cons.1 hd with rfl | hin
        · have hdex := (hs₁.dying dead hdead).2.1
          exact hunl.later hlater (hs₁.ne_init_of_exiting hdex) (not_alive_of_exiting hdex)
        · exact hall d hin

theorem hangup_all {N : Nat} {exit : Table n → Fin n → Option (Table n)}
    (hexit : ExitOk env N exit) (procgrp : Int) :
    ∀ (cs : List (Fin n)) (s : Table n), Inv env D X s → s.live < N →
      ∃ s', cs.foldlM (hangup env exit procgrp) s = some s' ∧ Inv env D X s' ∧ Later env s s'
  | [], s, hs, _ => ⟨s, rfl, hs, Later.refl env s⟩
  | c :: cs, s, hs, hlive => by
      have hfirst : ∃ s₁, hangup env exit procgrp s c = some s₁ ∧ Inv env D X s₁ ∧ Later env s s₁ := by
        unfold hangup
        cases hsel : (s.mproc c).alive && env.selects s procgrp c with
        | false => exact ⟨s, by simp, hs, Later.refl env s⟩
        | true =>
            rw [Bool.and_eq_true] at hsel
            simpa using sigProc_ok hexit hs hsel.1 hlive .SIGHUP
      rcases hfirst with ⟨s₁, hfirst, hs₁, hlater₁⟩
      rcases hangup_all hexit procgrp cs s₁ hs₁ (hlater₁.live_le.trans_lt hlive) with
        ⟨s', hrest, hs', hlater⟩
      refine ⟨s', ?_, hs', hlater₁.trans hlater⟩
      rw [List.foldlM_cons, hfirst]
      exact hrest

/-- Once nobody points to the dead process, it needs no exception. -/
theorem Inv.close (hs : Inv env (insert dead D) X s) (h : ∀ c, Unlinked s dead c) :
    Inv env D X s := by
  have hpresent : ∀ p, p ≠ dead → Present (insert dead D) s p → Present D s p := by
    intro p hp hold
    refine ⟨hold.pos, hold.in_use, ?_⟩
    intro hex
    rcases hold.exiting hex with heq | hin
    · exact absurd heq hp
    · exact hin
  refine { hs with parent := ?_, tracer := ?_, dying := ?_ }
  · intro c hu
    exact hpresent _ (h c hu).1 (hs.parent c hu)
  · intro c t hu ht
    refine hpresent t ?_ (hs.tracer c t hu ht)
    rintro rfl
    exact (h c hu).2 ht
  · intro c hin
    exact hs.dying c (Set.mem_insert_of_mem dead hin)

/-! ## exit_proc -/

theorem stopProc_tweak (env : Env n) (s : Table n) (c : Fin n) : Tweak s (stopProc env s c) := by
  unfold stopProc
  refine Tweak.trans (Tweak.modify s c ?_) (Tweak.trans (Tweak.modify _ _ ?_) (Tweak.modify _ c ?_))
  · constructor <;> simp
  · constructor <;> simp
  · constructor <;> simp

/-- The table in which VFS has the request and the process is marked. -/
def marked (s : Table n) (c : Fin n) (call : VfsCall) (exitStatus : Int) : Table n :=
  markExit { s.setFlags c fun f => { f with VFS_CALL := true } with
    vfs := Function.update s.vfs c (some call) } c exitStatus

theorem marked_flags (s : Table n) (c : Fin n) (call : VfsCall) (st : Int) :
    (marked s c call st).flags c =
      { IN_USE := (s.flags c).IN_USE, VFS_CALL := true, PRIV_PROC := (s.flags c).PRIV_PROC,
        TRACE_EXIT := (s.flags c).TRACE_EXIT, PROC_STOPPED := (s.flags c).PROC_STOPPED,
        EXITING := true } := by
  simp [marked, markExit, exitFlags, Table.flags, Table.setFlags, Table.modify]

theorem marked_vfs (s : Table n) (c : Fin n) (call : VfsCall) (st : Int) :
    (marked s c call st).vfs = Function.update s.vfs c (some call) :=
  rfl

theorem marked_of_ne {d : Fin n} (h : d ≠ c) (call : VfsCall) (st : Int) :
    (marked s c call st).mproc d = s.mproc d := by
  simp [marked, markExit, Table.setFlags, Table.modify, h]

theorem marked_self (s : Table n) (c : Fin n) (call : VfsCall) (st : Int) :
    (marked s c call st).mproc c =
      { s.mproc c with
        mp_flags := (marked s c call st).flags c, mp_exitstatus := st.bmod 256 } := by
  simp [marked, markExit, exitFlags, Table.flags, Table.setFlags, Table.modify]

/-- The process joins those whose children have to be given to INIT. -/
theorem Inv.marked {call : VfsCall} (hs : Inv env D X s) (ha : (s.mproc c).alive = true)
    (hinit : c ≠ env.INIT_PROC_NR) (hcall : call = .exit ∨ call = .dumpcore) (st : Int) :
    Inv env (insert c D) (insert c X) (marked s c call st) ∧
      Later env s (marked s c call st) := by
  rcases alive_iff.1 ha with ⟨hu, hex⟩
  have hex' : (s.flags c).EXITING = false := hex
  have hok := hs.slot c hu
  have hflags := marked_flags s c call st
  have hself := marked_self s c call st
  have hvc : (Pm.marked s c call st).vfs c = some call := by
    simp [marked_vfs]
  have hchange : Change s (Pm.marked s c call st) c := by
    refine ⟨⟨rfl, fun d hd => marked_of_ne hd call st, ?_, hu, ?_, ?_⟩, ?_, ?_⟩
    · intro d hd
      simp [marked_vfs, hd]
    · rw [hflags]
      exact hu
    · rw [hself]
    · simp [hflags]
    · rw [hself]
  constructor
  · refine hs.change hchange ?_ (fun _ _ hin => Or.inr hin) ?_ ?_ ?_ ?_ ?_ ?_ ?_ ?_
    · intro d hd
      simp [hd]
    · intro heq
      exact absurd heq hinit
    · intro _
      exact Or.inr (Set.mem_insert c D)
    · rw [hself]
      exact Or.inl rfl
    · rw [hself]
      exact fun t ht => ht
    · rw [hself, hflags, hvc]
      constructor
      · simp
      · simp
      · simp
      · simp
      · simp
      · simp
      · intro _
        rcases hcall with rfl | rfl <;> simp
      · simp
      · exact hok.trace_exit
      · exact hok.scheduler
      · exact hok.server
      · exact hok.pid
      · exact hok.procgrp
    · intro _
      rw [hflags, hvc]
      simp
    · intro e pid hfork
      rw [hvc] at hfork
      rcases hcall with rfl | rfl <;> simp at hfork
    · intro hx
      exact absurd (Set.mem_insert c X) hx
  · refine hchange.later ?_ ?_ ?_ ?_
    · simp [hflags]
    · rw [hself]
      exact Or.inl rfl
    · rw [hself]
      exact fun t ht => ht
    · simp [hex']

/-- The first half of an exit: VFS is told, the process is marked and, unless its core is dumped, the
exit is reported. -/
theorem announce_ok (hs : Inv env D X s) (ha : (s.mproc c).alive = true) (hv : s.vfs c = none)
    (hinit : c ≠ env.INIT_PROC_NR) (st : Int) (dumpCore : Bool) :
    ∃ s₁ s₂, tellVfs s c (if dumpCore then .dumpcore else .exit) = some s₁ ∧
      (if dumpCore then some (markExit s₁ c st) else zombify env (markExit s₁ c st) c) = some s₂ ∧
      Inv env (insert c D) X s₂ ∧ Later env s s₂ ∧ (s₂.mproc c).alive = false := by
  have hu := (alive_iff.1 ha).1
  have hidle : (s.mproc c).mp_flags.VFS_CALL = false := by
    rw [(hs.slot c hu).vfs_call, hv]
    rfl
  have hcall : ∀ call, tellVfs s c call = some { s.setFlags c fun f => { f with VFS_CALL := true } with
      vfs := Function.update s.vfs c (some call) } := by
    intro call
    simp [tellVfs, hidle]
  cases dumpCore with
  | true =>
      rcases hs.marked ha hinit (Or.inr rfl) st with ⟨hs₁, hlater₁⟩
      have hflags := marked_flags s c .dumpcore st
      refine ⟨_, _, hcall _, rfl, hs₁.settle ?_, hlater₁, not_alive_of_exiting (by
        change ((marked s c .dumpcore st).flags c).EXITING = true
        rw [hflags])⟩
      intro _
      constructor
      · intro _
        simp [marked_vfs]
      · simp [hflags]
      · simp [hflags]
      · simp [hflags]
      · simp [hflags]
  | false =>
      rcases hs.marked ha hinit (Or.inl rfl) st with ⟨hs₁, hlater₁⟩
      have hflags := marked_flags s c .exit st
      have hvc : (marked s c .exit st).vfs c = some .exit := by
        simp [marked_vfs]
      have hu₁ : ((marked s c .exit st).flags c).IN_USE = true := by
        rw [hflags]
        exact hu
      have hex₁ : ((marked s c .exit st).flags c).EXITING = true := by
        rw [hflags]
      rcases zombify_ok hs₁ (Set.mem_insert c X) hu₁ hex₁ (by simp [hvc]) (by rw [hflags])
        (by rw [hflags]) (by rw [hflags]) with ⟨s₂, hzombify, hs₂, hlater₂, hu₂, hv₂, hsettle⟩
      refine ⟨_, s₂, hcall _, hzombify, hs₂.settle ?_, hlater₁.trans hlater₂, ?_⟩
      · intro _
        refine hsettle ?_
        intro _
        simp [hv₂, hvc]
      · exact not_alive_of_exiting (hlater₂.exiting c hu₂ hex₁)

/-- With fuel for every process that is not exiting, `exit_proc` comes to an end, reaches none of its
panics and keeps the invariant. -/
theorem exitProc_ok (env : Env n) (who : Fin n) :
    ∀ (fuel : Nat) (D X : Set (Fin n)) (s : Table n) (c : Fin n) (st : Int) (dumpCore : Bool),
      Inv env D X s → (s.mproc c).alive = true → s.vfs c = none →
      (s.mproc c).mp_endpoint ≠ env.VFS_PROC_NR → s.live < fuel →
      ∃ s', exitProc env fuel s who c st dumpCore = some s' ∧ Inv env D X s' ∧ Later env s s'
  | 0, _, _, _, _, _, _, _, _, _, _, hlive => absurd hlive (Nat.not_lt_zero _)
  | fuel + 1, D, X, s, c, st, dumpCore, hs, ha, hv, hserver, hlive => by
      have hrec : ExitOk env fuel fun s d => exitProc env fuel s who d 0 false := by
        intro D X s c hs ha hv hserver hlive
        exact exitProc_ok env who fuel D X s c 0 false hs ha hv hserver hlive
      have htweak := stopProc_tweak env s c
      have hs₀ := hs.tweak htweak
      have hlater₀ : Later env s (stopProc env s c) := htweak.later
      unfold exitProc
      dsimp only
      by_cases hinit : (s.mproc c).mp_endpoint = env.INIT_PROC_NR.val
      · rw [if_pos hinit]
        exact ⟨_, rfl, hs₀, hlater₀⟩
      · rw [if_neg hinit, if_neg hserver]
        have hne : c ≠ env.INIT_PROC_NR := by
          rintro rfl
          exact hinit hs.init.2
        have ha₀ : ((stopProc env s c).mproc c).alive = true := (htweak.slot c).alive.trans ha
        have hv₀ : (stopProc env s c).vfs c = none := by
          rw [htweak.vfs]
          exact hv
        rcases announce_ok hs₀ ha₀ hv₀ hne st (dumpCore &&
            (s.mproc c).mp_realuid == (s.mproc c).mp_effuid && !(s.mproc c).mp_flags.PRIV_PROC) with
          ⟨s₁, s₂, htell, hmark, hs₂, hlater₂, hdead⟩
        have hlive₂ : s₂.live < fuel := by
          have hlt := (hlater₀.trans hlater₂).live_lt ha hdead
          omega
        rcases disinherit_all hrec (Set.mem_insert c D) (List.finRange n) s₂ hs₂ hlive₂ with
          ⟨s₃, hloop, hs₃, hlater₃, hunl⟩
        have hs₃' : Inv env D X s₃ := hs₃.close fun d => hunl d (List.mem_finRange d)
        have hlater := (hlater₀.trans hlater₂).trans hlater₃
        rw [htell]
        simp only [Option.bind_some]
        rw [hmark]
        simp only [Option.bind_some]
        rw [hloop]
        simp only [Option.bind_some]
        generalize (if (s.mproc c).mp_pid = (s.mproc who).mp_procgrp then (s.mproc who).mp_procgrp
          else 0) = procgrp
        by_cases hgrp : procgrp ≠ 0
        · rw [if_pos hgrp]
          rcases hangup_all hrec procgrp (List.finRange n).reverse s₃ hs₃'
            (hlater₃.live_le.trans_lt hlive₂) with ⟨s', hhang, hs', hlater'⟩
          exact ⟨s', hhang, hs', hlater.trans hlater'⟩
        · rw [if_neg hgrp]
          exact ⟨s₃, rfl, hs₃', hlater⟩

end Pm
end OsLab
